import WriterAgent.Framework.StreamDrain

/-!
# What the drain loop shows

Texts and thoughts appear in the order of their items, thoughts in blocks that
open and close in turn, and every end finds the last block closed and the
buffers empty.
-/

namespace WriterAgent.Framework

open PyText List

def Callback.isEnd : Callback → Bool
  | .streamDone _ => true
  | .stopped => true
  | .error _ => true
  | _ => false

def DrainEvent.blockAfter (isOpen : Bool) : DrainEvent → Option Bool
  | .shown .openBlock => if isOpen then none else some true
  | .shown .closeBlock => if isOpen then some false else none
  | .shown (.thinking _) => if isOpen then some true else none
  | .shown (.content _) => if isOpen then none else some false
  | .shown (.toolLine _) => if isOpen then none else some false
  | .called callback buffered =>
    if callback.isEnd && (isOpen || !buffered.isEmpty) then none
    else some isOpen

/-- Whether a block is open after the events, if every one of them may come:
markers alternate, thoughts are shown in a block and texts outside of one, and
an end comes outside of a block with nothing buffered. -/
def blockAfter (isOpen : Bool) : List DrainEvent → Option Bool
  | [] => some isOpen
  | event :: rest => (event.blockAfter isOpen).bind (blockAfter · rest)

theorem blockAfter_append (isOpen : Bool) (front back : List DrainEvent) :
    blockAfter isOpen (front ++ back) = (blockAfter isOpen front).bind (blockAfter · back) := by
  induction front generalizing isOpen with
  | nil => rfl
  | cons event rest ih =>
    simp only [cons_append, blockAfter]
    cases event.blockAfter isOpen with
    | none => rfl
    | some next => exact ih next

variable {state : DrainState} {next : Bool → DrainState → DrainState}
  {item : QueueItem} {now : Bool} {callback : Callback} {s : Text}
  {data : Payload} {items : List (Bool × QueueItem)} {outcome : Outcome}

theorem blockAfter_snoc {isOpen : Bool} {events : List DrainEvent}
    (before : blockAfter isOpen events = some now) (event : DrainEvent) :
    blockAfter isOpen (events ++ [event]) = event.blockAfter now := by
  rw [blockAfter_append, before]
  simp [blockAfter]

abbrev DisplayPiece := Piece Display Char Text

abbrev DisplayCell := (Display × Char) ⊕ Text

def DrainEvent.pieces : DrainEvent → List DisplayPiece
  | .shown (.thinking text) => [.text .thinking text]
  | .shown (.content text) => [.text .content text]
  | .shown (.toolLine text) => [.mark text]
  | _ => []

def shownPieces (events : List DrainEvent) : List DisplayPiece :=
  events.flatMap DrainEvent.pieces

/-- What an item asks to show; thoughts of tools only where enabled. -/
def QueueItem.pieces (showSearchThinking : Bool) (item : QueueItem) : List DisplayPiece :=
  match item with
  | .tuple (some .chunk) _ => [.text .content item.data.body]
  | .tuple (some .thinking) _ => [.text .thinking item.data.body]
  | .tuple (some .toolThinking) _ =>
    if showSearchThinking then [.text .thinking item.data.body] else []
  | .tuple (some .toolCall) _ => [.mark (formatAgentToolStreamLine "[Tool call]" item.data)]
  | .tuple (some .toolResult) _ => [.mark (formatAgentToolStreamLine "[Tool result]" item.data)]
  | _ => []

def itemPieces (showSearchThinking : Bool) (items : List QueueItem) : List DisplayPiece :=
  items.flatMap (QueueItem.pieces showSearchThinking)

theorem shownPieces_snoc (events : List DrainEvent) (event : DrainEvent) :
    Piece.cells (shownPieces (events ++ [event])) =
      Piece.cells (shownPieces events) ++ Piece.cells event.pieces := by
  simp [shownPieces]

def AllText (parts : List Payload) : Prop :=
  ∀ part ∈ parts, ∃ s, part = .text s

theorem joinTexts_of_allText {parts : List Payload} (texts : AllText parts) :
    joinTexts parts = some (parts.flatMap Payload.body) := by
  induction parts with
  | nil => rfl
  | cons part rest ih =>
    obtain ⟨s, rfl⟩ := texts part mem_cons_self
    have later := ih fun part member =>
      texts part (mem_cons_of_mem _ member)
    rw [joinTexts, later]
    rfl

theorem AllText.snoc {parts : List Payload} (texts : AllText parts)
    (s : Text) : AllText (parts ++ [.text s]) := by
  intro part member
  rcases mem_append.mp member with early | last
  · exact texts part early
  · exact ⟨s, mem_singleton.mp last⟩

def bufferCells (kind : Display) (parts : List Payload) : List DisplayCell :=
  Piece.cellsOf (.text kind (parts.flatMap Payload.body))

@[simp] theorem bufferCells_nil (kind : Display) : bufferCells kind [] = [] :=
  rfl

theorem bufferCells_snoc (kind : Display) (parts : List Payload) (data : Payload) :
    bufferCells kind (parts ++ [data]) =
      bufferCells kind parts ++ Piece.cellsOf (.text kind data.body) := by
  rw [bufferCells, flatMap_append, Piece.cellsOf_text_append]
  simp [bufferCells]

variable {owed : List DisplayCell}

namespace DrainState

variable (config : DrainConfig)

/-- No call of `apply_chunk_fn` raises. -/
def Shows : Prop := ∀ events call, config.applyRaises events call = false

/-- Between two events of the loop: calls came in order so far, the buffers
hold texts of one kind, and with the cells still owed everything the items
asked for has been shown or is buffered. -/
structure Inv (owed : List DisplayCell) (state : DrainState) : Prop where
  block : blockAfter false state.events = some state.thinkingOpen
  content : AllText state.currentContent
  thinking : AllText state.currentThinking
  oneBuffer : state.currentContent = [] ∨ state.currentThinking = []
  cells : Piece.cells (shownPieces state.events) ++ (bufferCells .thinking state.currentThinking ++
        bufferCells .content state.currentContent) ++ owed =
    Piece.cells (itemPieces config.showSearchThinking state.processed)

/-- The buffers are empty. -/
structure Flushed (state : DrainState) : Prop where
  noContent : state.currentContent = []
  noThinking : state.currentThinking = []

/-- The buffers are empty and the block is closed. -/
structure Closed (state : DrainState) : Prop extends Flushed state where
  closed : state.thinkingOpen = false

variable {config}

theorem applyChunk_ok (shows : Shows config) (call : Shown) (state : DrainState) :
    state.applyChunk config call = .ok { state with events := state.events ++ [.shown call] } := by
  simp [applyChunk, shows state.events call]

theorem Inv.event (inv : Inv config owed state) {event : DrainEvent}
    (comes : event.blockAfter state.thinkingOpen = some now) (silent : event.pieces = []) :
    Inv config owed { state with
      events := state.events ++ [event]
      thinkingOpen := now } := by
  refine ⟨?_, inv.content, inv.thinking, inv.oneBuffer, ?_⟩
  · rw [blockAfter_snoc inv.block]
    exact comes
  · rw [shownPieces_snoc, silent]
    simpa using inv.cells

section

variable (shows : Shows config) (inv : Inv config owed state)

include shows inv

theorem closeThinking_spec : ∃ next, state.closeThinking config = .ok next ∧ Inv config owed next ∧
      next.thinkingOpen = false ∧
      next.currentContent = state.currentContent ∧
      next.currentThinking = state.currentThinking := by
  cases isOpen : state.thinkingOpen with
  | false =>
    refine ⟨state, ?_, inv, isOpen, rfl, rfl⟩
    simp [closeThinking, isOpen]
  | true =>
    have comes : DrainEvent.blockAfter state.thinkingOpen (.shown .closeBlock) = some false := by
      rw [isOpen]
      rfl
    refine ⟨_, ?_, inv.event comes rfl, rfl, rfl, rfl⟩
    rw [closeThinking, if_pos isOpen, applyChunk_ok shows]
    rfl

theorem openThinking_spec : ∃ next, state.openThinking config = .ok next ∧ Inv config owed next ∧
      next.thinkingOpen = true ∧
      next.currentContent = state.currentContent ∧
      next.currentThinking = state.currentThinking := by
  cases isOpen : state.thinkingOpen with
  | true =>
    refine ⟨state, ?_, inv, isOpen, rfl, rfl⟩
    simp [openThinking, isOpen]
  | false =>
    have comes : DrainEvent.blockAfter state.thinkingOpen (.shown .openBlock) = some true := by
      rw [isOpen]
      rfl
    refine ⟨_, ?_, inv.event comes rfl, rfl, rfl, rfl⟩
    rw [openThinking, if_neg (by simp [isOpen]), applyChunk_ok shows]
    rfl

theorem flushThinking_spec : ∃ next, state.flushThinking config = .ok next ∧ Inv config owed next ∧
      next.currentThinking = [] := by
  by_cases nothing : state.currentThinking = []
  · refine ⟨state, ?_, inv, nothing⟩
    simp [flushThinking, nothing]
  · obtain ⟨opened, opens, invOpened, isOpen, sameContent, sameThinking⟩ :=
      openThinking_spec shows inv
    have noContent : opened.currentContent = [] := by
      rw [sameContent]
      exact inv.oneBuffer.resolve_right nothing
    refine ⟨{ opened with
      events := opened.events ++ [.shown (.thinking (opened.currentThinking.flatMap Payload.body))]
      currentThinking := [] }, ?_, ⟨?_, invOpened.content, nofun, .inr rfl, ?_⟩, rfl⟩
    · rw [flushThinking, if_neg (by simpa using nothing), opens]
      simp only [Outcome.andThen]
      rw [joinTexts_of_allText invOpened.thinking]
      simp only [applyChunk_ok shows]
    · rw [blockAfter_snoc invOpened.block, isOpen]
      rfl
    · rw [shownPieces_snoc, ← invOpened.cells]
      simp [DrainEvent.pieces, bufferCells]

theorem flushContent_spec (noThinking : state.currentThinking = []) :
    ∃ next, state.flushContent config = .ok next ∧ Inv config owed next ∧ Flushed next := by
  by_cases nothing : state.currentContent = []
  · refine ⟨state, ?_, inv, nothing, noThinking⟩
    simp [flushContent, nothing]
  · obtain ⟨closed, closes, invClosed, isClosed, sameContent, sameThinking⟩ :=
      closeThinking_spec shows inv
    rw [noThinking] at sameThinking
    refine ⟨{ closed with
      events := closed.events ++ [.shown (.content (closed.currentContent.flatMap Payload.body))]
      currentContent := [] }, ?_, ⟨?_, nofun, invClosed.thinking, .inl rfl, ?_⟩, rfl, sameThinking⟩
    · rw [flushContent, if_neg (by simpa using nothing), closes]
      simp only [Outcome.andThen]
      rw [joinTexts_of_allText invClosed.content]
      simp only [applyChunk_ok shows]
    · rw [blockAfter_snoc invClosed.block, isClosed]
      rfl
    · rw [shownPieces_snoc, ← invClosed.cells, sameThinking]
      simp [DrainEvent.pieces, bufferCells]

theorem flushBuffers_spec :
    ∃ next, state.flushBuffers config = .ok next ∧ Inv config owed next ∧ Flushed next := by
  obtain ⟨first, flushed, invFirst, noThinking⟩ :=
    flushThinking_spec shows inv
  obtain ⟨next, flushedToo, invNext, empty⟩ :=
    flushContent_spec shows invFirst noThinking
  refine ⟨next, ?_, invNext, empty⟩
  rw [flushBuffers, flushed]
  exact flushedToo

theorem flushAndClose_spec :
    ∃ next, state.flushAndClose config = .ok next ∧ Inv config owed next ∧ Closed next := by
  obtain ⟨first, flushed, invFirst, empty⟩ := flushBuffers_spec shows inv
  obtain ⟨next, closes, invNext, isClosed, sameContent, sameThinking⟩ :=
    closeThinking_spec shows invFirst
  refine ⟨next, ?_, invNext, ⟨⟨?_, ?_⟩, isClosed⟩⟩
  · rw [flushAndClose, flushed]
    exact closes
  · rw [sameContent, empty.noContent]
  · rw [sameThinking, empty.noThinking]

end

theorem Closed.inv_logCall (closed : Closed state) (inv : Inv config owed state)
    (callback : Callback) :
    Inv config owed (state.logCall callback) ∧ Closed (state.logCall callback) := by
  refine ⟨inv.event ?_ rfl, ⟨closed.noContent, closed.noThinking⟩, closed.closed⟩
  rw [closed.closed, closed.noThinking, closed.noContent]
  simp [DrainEvent.blockAfter]

theorem Inv.logCall (inv : Inv config owed state) (noEnd : callback.isEnd = false) :
    Inv config owed (state.logCall callback) := by
  apply inv.event _ rfl
  simp [DrainEvent.blockAfter, noEnd]

theorem callBack_state (callback : Callback)
    (next : Bool → DrainState → DrainState) (state : DrainState) :
    (∃ b, state.callBack config callback next = .ok (next b (state.logCall callback))) ∨
      state.callBack config callback next = .raised (state.logCall callback) := by
  unfold callBack
  cases config.reply state.events callback with
  | value b => exact .inl ⟨b, rfl⟩
  | raises => exact .inr rfl

theorem Inv.setJobDone (inv : Inv config owed state) : Inv config owed state.setJobDone :=
  ⟨inv.block, inv.content, inv.thinking, inv.oneBuffer, inv.cells⟩

theorem Closed.setJobDone (closed : Closed state) : Closed state.setJobDone :=
  ⟨⟨closed.noContent, closed.noThinking⟩, closed.closed⟩

/-- The continuations of the callbacks only say whether the job is done. -/
def OnlyJobDone (next : Bool → DrainState → DrainState) : Prop :=
  ∀ b state, next b state = state ∨ next b state = state.setJobDone

theorem onlyJobDone_stays : OnlyJobDone fun _ state => state :=
  fun _ _ => .inl rfl

theorem onlyJobDone_always : OnlyJobDone fun _ state => state.setJobDone :=
  fun _ _ => .inr rfl

theorem onlyJobDone_if : OnlyJobDone fun done state =>
    if done then state.setJobDone else state := by
  intro done state
  cases done with
  | true => exact .inr rfl
  | false => exact .inl rfl

theorem onlyJobDone_unless : OnlyJobDone fun recovered state =>
    if recovered then state else state.setJobDone := by
  intro recovered state
  cases recovered with
  | true => exact .inl rfl
  | false => exact .inr rfl

theorem callBack_closed (closed : Closed state) (inv : Inv config owed state)
    (callback : Callback) (only : OnlyJobDone next) :
    Inv config owed (state.callBack config callback next).state ∧
      Closed (state.callBack config callback next).state := by
  obtain ⟨invCalled, closedCalled⟩ := closed.inv_logCall inv callback
  rcases callBack_state callback next state with ⟨b, returns⟩ | raises
  · rw [returns]
    rcases only b (state.logCall callback) with same | done
    · simp only [Outcome.state, same]
      exact ⟨invCalled, closedCalled⟩
    · simp only [Outcome.state, done]
      exact ⟨invCalled.setJobDone, closedCalled.setJobDone⟩
  · rw [raises]
    exact ⟨invCalled, closedCalled⟩

theorem flushAndClose_callBack (shows : Shows config) (inv : Inv config owed state)
    (callback : Callback) (only : OnlyJobDone next) :
    let outcome := (state.flushAndClose config).andThen (callBack config callback next)
    Inv config owed outcome.state ∧ Closed outcome.state := by
  obtain ⟨flushed, flushes, invFlushed, closed⟩ :=
    flushAndClose_spec shows inv
  rw [flushes]
  exact callBack_closed closed invFlushed callback only

def QueueItemText (showSearchThinking : Bool) (item : QueueItem) : Prop :=
  match item with
  | .tuple (some .chunk) _ => ∃ s, item.data = .text s
  | .tuple (some .thinking) _ => ∃ s, item.data = .text s
  | .tuple (some .toolThinking) _ => showSearchThinking = true → ∃ s, item.data = .text s
  | _ => True

/-- A text goes into its buffer once the other one is empty. -/
theorem readied_spec (shows : Shows config) (inv : Inv config owed state)
    (other : DrainState → List Payload) (flushes : ∀ next, Flushed next → other next = []) :
    ∃ next, (if (other state).isEmpty then .ok state else state.flushBuffers config) =
      Outcome.ok next ∧ Inv config owed next ∧ other next = [] := by
  split
  · rename_i empty
    exact ⟨state, rfl, inv, isEmpty_iff.mp empty⟩
  · obtain ⟨next, flushed, invNext, empty⟩ := flushBuffers_spec shows inv
    exact ⟨next, flushed, invNext, flushes next empty⟩

theorem handleChunk_inv (shows : Shows config)
    (inv : Inv config (Piece.cellsOf (.text .content s)) state) :
    Inv config [] (state.handleChunk config (.text s)).state := by
  obtain ⟨next, readied, invNext, noThinking⟩ :=
    readied_spec shows inv DrainState.currentThinking fun _ empty => empty.noThinking
  rw [handleChunk, readied]
  simp only [Outcome.andThen, Outcome.state]
  refine ⟨invNext.block, invNext.content.snoc s, invNext.thinking, .inr noThinking, ?_⟩
  rw [← invNext.cells, bufferCells_snoc]
  simp [Payload.body]

theorem handleThinking_inv (shows : Shows config)
    (inv : Inv config (Piece.cellsOf (.text .thinking s)) state) :
    Inv config [] (state.handleThinking config (.text s)).state := by
  obtain ⟨next, readied, invNext, noContent⟩ :=
    readied_spec shows inv DrainState.currentContent fun _ empty => empty.noContent
  rw [handleThinking, readied]
  simp only [Outcome.andThen, Outcome.state]
  refine ⟨invNext.block, invNext.content, invNext.thinking.snoc s, .inl noContent, ?_⟩
  rw [← invNext.cells, noContent, bufferCells_snoc]
  simp [Payload.body]

theorem handleToolLine_inv (shows : Shows config) {label : String}
    (inv : Inv config [.inr (formatAgentToolStreamLine label data)] state) :
    Inv config [] (state.handleToolLine config label data).state := by
  obtain ⟨flushed, flushes, invFlushed, closed⟩ :=
    flushAndClose_spec shows inv
  rw [handleToolLine, flushes]
  simp only [Outcome.andThen, applyChunk_ok shows, Outcome.state]
  refine ⟨?_, invFlushed.content, invFlushed.thinking, invFlushed.oneBuffer, ?_⟩
  · rw [blockAfter_snoc invFlushed.block, closed.closed]
    rfl
  · rw [shownPieces_snoc, ← invFlushed.cells, closed.noContent, closed.noThinking]
    simp [DrainEvent.pieces]

theorem handleStatus_inv (inv : Inv config [] state) :
    Inv config [] (state.handleStatus config data).state := by
  unfold handleStatus
  split
  · rcases callBack_state (.status data) (fun _ state => state) state with
      ⟨b, returns⟩ | raises
    · rw [returns]
      exact inv.logCall rfl
    · rw [raises]
      exact inv.logCall rfl
  · exact inv

theorem handleApprovalRequired_inv (shows : Shows config) (inv : Inv config [] state) :
    Inv config [] (state.handleApprovalRequired config item).state := by
  obtain ⟨flushed, flushes, invFlushed, closed⟩ :=
    flushAndClose_spec shows inv
  rw [handleApprovalRequired, flushes]
  split
  · exact (callBack_closed closed invFlushed (.approvalRequired item) onlyJobDone_stays).1
  · exact invFlushed

theorem dispatch_inv (shows : Shows config) {kind : StreamQueueKind}
    {args : List Payload} (isText : QueueItemText config.showSearchThinking
      (.tuple (some kind) args))
    (inv : Inv config (Piece.cells (itemPieces config.showSearchThinking
      [.tuple (some kind) args])) state) :
    Inv config [] (state.dispatch config kind (.tuple (some kind) args)).state := by
  have ends : ∀ callback next, OnlyJobDone next → Inv config [] state →
      Inv config [] ((state.flushAndClose config).andThen (callBack config callback next)).state :=
    fun callback next only inv =>
      (flushAndClose_callBack shows inv callback only).1
  cases kind with
  | chunk =>
    obtain ⟨s, isData⟩ := isText
    simp only [dispatch]
    rw [isData]
    apply handleChunk_inv shows
    simpa [itemPieces, QueueItem.pieces, isData, Payload.body] using inv
  | thinking =>
    obtain ⟨s, isData⟩ := isText
    simp only [dispatch]
    rw [isData]
    apply handleThinking_inv shows
    simpa [itemPieces, QueueItem.pieces, isData, Payload.body] using inv
  | toolThinking =>
    simp only [dispatch, handleToolThinking]
    split
    · rename_i enabled
      obtain ⟨s, isData⟩ := isText enabled
      rw [isData]
      apply handleThinking_inv shows
      simpa [itemPieces, QueueItem.pieces, isData, Payload.body, enabled] using inv
    · rename_i disabled
      simpa [itemPieces, QueueItem.pieces, disabled, Outcome.state] using inv
  | status => exact handleStatus_inv inv
  | streamDone | toolDone | finalDone | nextTool => exact ends _ _ onlyJobDone_if inv
  | toolCall | toolResult => exact handleToolLine_inv shows inv
  | approvalRequired => exact handleApprovalRequired_inv shows inv
  | stopped => exact ends _ _ onlyJobDone_always inv
  | error => exact ends _ _ onlyJobDone_unless inv

/-- An item that the loop can take: a tuple with a tag, and a text where one
is to be shown. -/
def QueueItemGood (config : DrainConfig) (item : QueueItem) : Prop :=
  item ≠ .emptyTuple ∧ QueueItemText config.showSearchThinking item

/-- What is left where the loop over a batch stops or goes on. -/
structure AfterItem (config : DrainConfig) (result : DrainState × After) : Prop where
  inv : Inv config [] result.1
  failed : result.2 = .leaveFailed → Flushed result.1
  raised : result.2 = .raised → Closed result.1

section

variable (shows : Shows config) (inv : Inv config [] state)

include shows inv

theorem stopInBatch_after : AfterItem config (state.stopInBatch config) := by
  obtain ⟨invNext, closed⟩ :=
    flushAndClose_callBack shows inv .stopped onlyJobDone_always
  unfold stopInBatch
  split
  · rename_i next isNext
    rw [isNext] at invNext
    exact ⟨invNext, nofun, nofun⟩
  · rename_i next isNext
    rw [isNext] at invNext closed
    exact ⟨invNext, nofun, fun _ => closed⟩

theorem recover_after : AfterItem config (state.recover config) := by
  obtain ⟨flushed, flushes, invFlushed, closed⟩ :=
    flushAndClose_spec shows inv
  obtain ⟨invCalled, closedCalled⟩ :=
    closed.inv_logCall invFlushed (.error .handlerFailed)
  unfold recover
  rw [flushes]
  simp only [Outcome.state]
  split
  · exact ⟨invCalled, nofun, nofun⟩
  · exact ⟨invCalled.setJobDone, fun _ => closedCalled.setJobDone.toFlushed,
      nofun⟩

theorem processItem_after (stop : Bool) (good : QueueItemGood config item) :
    AfterItem config (state.processItem config stop item) := by
  unfold processItem
  split
  · exact stopInBatch_after shows inv
  · cases item with
    | emptyTuple => exact absurd rfl good.1
    | tuple tag args =>
      cases tag with
      | none =>
        obtain ⟨invNext, closed⟩ := flushAndClose_callBack shows inv
          (.error .badTag) onlyJobDone_always
        dsimp only
        split
        · rename_i next isNext
          rw [rejectTag] at isNext
          rw [isNext] at invNext
          exact ⟨invNext, nofun, nofun⟩
        · rename_i next isNext
          rw [rejectTag] at isNext
          rw [isNext] at invNext
          exact recover_after shows invNext
      | some kind =>
        have handed : Inv config (Piece.cells (itemPieces
            config.showSearchThinking [.tuple (some kind) args]))
            { state with processed :=
                state.processed ++ [.tuple (some kind) args] } := by
          refine ⟨inv.block, inv.content, inv.thinking, inv.oneBuffer, ?_⟩
          have before := inv.cells
          rw [append_nil] at before
          rw [before]
          simp [itemPieces]
        have invNext := dispatch_inv shows good.2 handed
        dsimp only
        split
        · rename_i next isNext
          rw [isNext] at invNext
          refine ⟨invNext, ?_, ?_⟩
          · split <;> exact nofun
          · split <;> exact nofun
        · rename_i next isNext
          rw [isNext] at invNext
          exact recover_after shows invNext

theorem processItems_after (good : ∀ entry ∈ items, QueueItemGood config entry.2) :
    AfterItem config (state.processItems config items) := by
  induction items generalizing state with
  | nil => exact ⟨inv, nofun, nofun⟩
  | cons entry rest ih =>
    obtain ⟨stop, item⟩ := entry
    have first := processItem_after shows inv stop (good (stop, item) mem_cons_self)
    have later := fun entry member =>
      good entry (mem_cons_of_mem _ member)
    rw [processItems]
    split
    · rename_i next isNext
      rw [isNext] at first
      exact ih first.inv later
    · exact first

theorem processBatch_inv (good : ∀ entry ∈ items, QueueItemGood config entry.2) :
    (∃ next, state.processBatch config items = .ok next ∧ Inv config [] next ∧ Flushed next) ∨
      ∃ next, state.processBatch config items = .raised next ∧
        Inv config [] next ∧ Closed next := by
  have after := processItems_after shows inv good
  unfold processBatch
  split
  · rename_i next isNext
    rw [isNext] at after
    exact .inr ⟨next, rfl, after.inv, after.raised rfl⟩
  · rename_i next isNext
    rw [isNext] at after
    exact .inl ⟨next, rfl, after.inv, after.failed rfl⟩
  · rename_i next isNext
    rw [isNext] at after
    exact .inl (flushBuffers_spec shows after.inv)

end

/-- The turns that end outside of a batch only while no block is open, and
take good items only. -/
def Allowed (config : DrainConfig) (state : DrainState) (round : Round) :
    Prop :=
  state.jobDone = false → state.crashed = false →
    if round.stop then state.thinkingOpen = false
    else
      match round.batch with
      | none => state.thinkingOpen = false
      | some items => ∀ entry ∈ items, QueueItemGood config entry.2

/-- Between two turns nothing is buffered. -/
structure Settled (config : DrainConfig) (state : DrainState) : Prop extends
    Inv config [] state, Flushed state

theorem endLoop_settled (settled : Settled config state)
    (closed : state.thinkingOpen = false) (callback : Callback) :
    Settled config (endLoop (state.callBack config callback fun _ state => state)) := by
  have isClosed : Closed state := ⟨settled.toFlushed, closed⟩
  obtain ⟨inv, closedCalled⟩ := isClosed.inv_logCall settled.toInv callback
  rcases callBack_state callback (fun _ state => state) state with
    ⟨b, returns⟩ | raises
  · rw [returns]
    exact ⟨inv.setJobDone, closedCalled.setJobDone.toFlushed⟩
  · rw [raises]
    exact ⟨⟨inv.block, inv.content, inv.thinking, inv.oneBuffer, inv.cells⟩,
      ⟨closedCalled.noContent, closedCalled.noThinking⟩⟩

theorem step_settled (shows : Shows config) {round : Round}
    (settled : Settled config state) (allowed : Allowed config state round) :
    Settled config (step config state round) := by
  unfold step
  split
  · exact settled
  · rename_i running
    simp only [Bool.or_eq_true, not_or, Bool.not_eq_true] at running
    have condition := allowed running.1 running.2
    split
    · rename_i stops
      rw [if_pos stops] at condition
      exact endLoop_settled settled condition .stopped
    · rename_i goesOn
      rw [if_neg goesOn] at condition
      split
      · rename_i fails
        rw [fails] at condition
        exact endLoop_settled settled condition (.error .drainFailed)
      · exact settled
      · rename_i items notEmpty drained
        rw [drained] at condition
        rcases processBatch_inv shows settled.toInv condition with
          ⟨next, isNext, inv, flushed⟩ | ⟨next, isNext, inv, closed⟩
        · rw [isNext]
          exact ⟨inv, flushed⟩
        · rw [isNext]
          obtain ⟨invEnd, closedEnd⟩ := callBack_closed
            closed.setJobDone inv.setJobDone (.error .batchFailed)
            onlyJobDone_stays
          exact ⟨invEnd, closedEnd.toFlushed⟩

theorem init_settled : Settled config init :=
  ⟨⟨rfl, nofun, nofun, .inl rfl, rfl⟩, rfl, rfl⟩

theorem run_settled (shows : Shows config) {rounds : List Round}
    (along : Along (step config) (Allowed config) init rounds) :
    Settled config (run config init rounds) :=
  along.foldl_invariant (Settled config)
    (fun _ _ settled allowed => step_settled shows settled allowed)
    init_settled

def QueueItem.hasTag : QueueItem → Bool
  | .tuple (some _) _ => true
  | _ => false

/-- What neither showing nor a callback changes. -/
structure Same (before after : DrainState) : Prop where
  processed : after.processed = before.processed
  jobDone : after.jobDone = before.jobDone

theorem Same.refl (state : DrainState) : Same state state := ⟨rfl, rfl⟩

theorem Same.trans {first second third : DrainState}
    (early : Same first second) (late : Same second third) :
    Same first third :=
  ⟨late.processed.trans early.processed, late.jobDone.trans early.jobDone⟩

theorem Same.andThen {next : DrainState → Outcome} (first : Same state outcome.state)
    (later : ∀ state, Same state (next state).state) :
    Same state (outcome.andThen next).state := by
  cases outcome with
  | ok reached => exact first.trans (later reached)
  | raised reached => exact first

variable (config)

theorem applyChunk_same (call : Shown) (state : DrainState) :
    Same state (state.applyChunk config call).state := by
  unfold applyChunk
  split
  · exact .refl state
  · exact ⟨rfl, rfl⟩

theorem closeThinking_same (state : DrainState) :
    Same state (state.closeThinking config).state := by
  unfold closeThinking
  split
  · exact (applyChunk_same config _ state).andThen fun _ => ⟨rfl, rfl⟩
  · exact .refl state

theorem flushBuffers_same (state : DrainState) : Same state (state.flushBuffers config).state := by
  have opening : ∀ state, Same state (state.openThinking config).state := by
    intro state
    unfold openThinking
    split
    · exact .refl state
    · exact (applyChunk_same config _ state).andThen fun _ => ⟨rfl, rfl⟩
  have thinking : Same state (state.flushThinking config).state := by
    unfold flushThinking
    split
    · exact .refl state
    · refine (opening state).andThen fun state => ?_
      split
      · exact (applyChunk_same config _ state).andThen fun _ => ⟨rfl, rfl⟩
      · exact .refl state
  apply thinking.andThen
  intro state
  unfold flushContent
  split
  · exact .refl state
  · refine (closeThinking_same config state).andThen fun state => ?_
    split
    · exact (applyChunk_same config _ state).andThen fun _ => ⟨rfl, rfl⟩
    · exact .refl state

theorem flushAndClose_same (state : DrainState) : Same state (state.flushAndClose config).state :=
  (flushBuffers_same config state).andThen (closeThinking_same config)

theorem callBack_processed (callback : Callback) (only : OnlyJobDone next) (state : DrainState) :
    (state.callBack config callback next).state.processed =
      state.processed := by
  rcases callBack_state callback next state with ⟨b, returns⟩ | raises
  · rw [returns]
    rcases only b (state.logCall callback) with same | done
    · simp only [Outcome.state, same]
      rfl
    · simp only [Outcome.state, done]
      rfl
  · rw [raises]
    rfl

theorem andThen_processed {items : List QueueItem} {next : DrainState → Outcome}
    (first : outcome.state.processed = items)
    (later : ∀ state, (next state).state.processed = state.processed) :
    (outcome.andThen next).state.processed = items := by
  cases outcome with
  | ok reached => exact (later reached).trans first
  | raised reached => exact first

theorem flushAndClose_callBack_processed (callback : Callback)
    (only : OnlyJobDone next) (state : DrainState) :
    ((state.flushAndClose config).andThen
      (callBack config callback next)).state.processed = state.processed :=
  andThen_processed (flushAndClose_same config state).processed
    (callBack_processed config callback only)

theorem flushAndClose_callBack_done {next : DrainState}
    (returns : (state.flushAndClose config).andThen (callBack config callback
      fun _ state => state.setJobDone) = .ok next) : next.jobDone = true := by
  cases flushed : state.flushAndClose config with
  | raised reached =>
    rw [flushed] at returns
    cases returns
  | ok reached =>
    rw [flushed] at returns
    simp only [Outcome.andThen, callBack] at returns
    split at returns
    · cases returns
      rfl
    · cases returns

theorem dispatch_processed (kind : StreamQueueKind) (item : QueueItem) (state : DrainState) :
    (state.dispatch config kind item).state.processed = state.processed := by
  have append : ∀ (waits : Bool) (grow : DrainState → DrainState),
      (∀ state, (grow state).processed = state.processed) →
      ((if waits then .ok state else state.flushBuffers config).andThen
        fun state => .ok (grow state)).state.processed =
          state.processed := by
    intro waits grow same
    cases waits with
    | true => exact same state
    | false => exact andThen_processed (flushBuffers_same config state).processed same
  have thinking : (state.handleThinking config item.data).state.processed =
      state.processed := append _ _ fun _ => rfl
  have ends := fun item : QueueItem => flushAndClose_callBack_processed
    config (.streamDone item) onlyJobDone_if state
  have line : ∀ label, (state.handleToolLine config label item.data).state.processed =
        state.processed := fun label =>
    ((flushAndClose_same config state).andThen (applyChunk_same config _)).processed
  cases kind with
  | chunk => exact append _ _ fun _ => rfl
  | thinking => exact thinking
  | toolThinking =>
    simp only [dispatch, handleToolThinking]
    split
    · exact thinking
    · rfl
  | status =>
    simp only [dispatch, handleStatus]
    split
    · exact callBack_processed config _ onlyJobDone_stays state
    · rfl
  | streamDone | toolDone | finalDone | nextTool => exact ends item
  | toolCall | toolResult => exact line _
  | approvalRequired =>
    apply andThen_processed (flushAndClose_same config state).processed
    intro reached
    split
    · exact callBack_processed config _ onlyJobDone_stays reached
    · rfl
  | stopped => exact flushAndClose_callBack_processed config _ onlyJobDone_always state
  | error => exact flushAndClose_callBack_processed config _ onlyJobDone_unless state

/-- How far a batch got: the items handed to handlers are the first of those
with a tag, and all of them unless the job is done or an exception is on its
way. -/
structure Progress (before : DrainState) (items : List QueueItem)
    (result : DrainState × After) : Prop where
  processed : ∃ front, front <+: items.filter QueueItem.hasTag ∧
    result.1.processed = before.processed ++ front ∧
    (result.1.jobDone = true ∨ result.2 = .raised ∨ front = items.filter QueueItem.hasTag)

theorem stopInBatch_progress (state : DrainState) (items : List QueueItem) :
    Progress state items (state.stopInBatch config) ∧ (state.stopInBatch config).2 ≠ .next := by
  have same := flushAndClose_callBack_processed config .stopped onlyJobDone_always state
  unfold stopInBatch
  split
  · rename_i next isNext
    rw [isNext] at same
    have done := flushAndClose_callBack_done config isNext
    exact ⟨⟨[], nil_prefix, same.trans (append_nil _).symm, .inl done⟩, nofun⟩
  · rename_i next isNext
    rw [isNext] at same
    exact ⟨⟨[], nil_prefix, same.trans (append_nil _).symm, .inr (.inl rfl)⟩, nofun⟩

theorem recover_processed (state : DrainState) :
    (state.recover config).1.processed = state.processed ∧
      ((state.recover config).2 = .next ∨ (state.recover config).1.jobDone = true) := by
  have same := (flushAndClose_same config state).processed
  unfold recover
  dsimp only
  split
  · exact ⟨same, .inl rfl⟩
  · exact ⟨same, .inr rfl⟩

theorem filter_singleton_prefix (item : QueueItem) (rest : List QueueItem) :
    [item].filter QueueItem.hasTag <+: (item :: rest).filter QueueItem.hasTag := by
  rw [show item :: rest = [item] ++ rest from rfl, filter_append]
  exact prefix_append _ _

/-- The ways an item can leave the loop: on to the next item, or out. -/
def ItemProgress (state : DrainState) (item : QueueItem)
    (rest : List QueueItem) (result : DrainState × After) : Prop :=
  (result.2 = .next ∧ result.1.processed = state.processed ++ [item].filter QueueItem.hasTag) ∨
    (result.2 ≠ .next ∧ Progress state (item :: rest) result)

theorem itemProgress_of_processed (rest : List QueueItem)
    {result : DrainState × After} (processed : result.1.processed =
      state.processed ++ [item].filter QueueItem.hasTag)
    (ends : result.2 = .next ∨ result.1.jobDone = true) :
    ItemProgress state item rest result := by
  by_cases goesOn : result.2 = .next
  · exact .inl ⟨goesOn, processed⟩
  · have done := ends.resolve_left goesOn
    exact .inr ⟨goesOn, ⟨_, filter_singleton_prefix item rest, processed, .inl done⟩⟩

theorem processItem_progress (stop : Bool) (item : QueueItem)
    (state : DrainState) (rest : List QueueItem) :
    ItemProgress state item rest (state.processItem config stop item) := by
  unfold processItem
  split
  · obtain ⟨progress, ends⟩ :=
      stopInBatch_progress config state (item :: rest)
    exact .inr ⟨ends, progress⟩
  · cases item with
    | emptyTuple => exact .inr ⟨nofun, ⟨[], nil_prefix, (append_nil _).symm, .inr (.inl rfl)⟩⟩
    | tuple tag args =>
      cases tag with
      | none =>
        have same := flushAndClose_callBack_processed config
          (.error .badTag) onlyJobDone_always state
        have nothing : [QueueItem.tuple none args].filter QueueItem.hasTag = [] := rfl
        dsimp only
        split
        · rename_i next isNext
          have done := flushAndClose_callBack_done config isNext
          rw [rejectTag] at isNext
          rw [isNext] at same
          apply itemProgress_of_processed rest _ (.inr done)
          rw [nothing, append_nil]
          exact same
        · rename_i next isNext
          rw [rejectTag] at isNext
          rw [isNext] at same
          obtain ⟨kept, ends⟩ :=
            recover_processed config next
          apply itemProgress_of_processed rest _ ends
          rw [nothing, append_nil, kept]
          exact same
      | some kind =>
        have same := dispatch_processed config kind
          (.tuple (some kind) args) { state with processed :=
            state.processed ++ [.tuple (some kind) args] }
        dsimp only
        split
        · rename_i next isNext
          rw [isNext] at same
          apply itemProgress_of_processed rest same
          cases done : next.jobDone with
          | true => exact .inr rfl
          | false => exact .inl rfl
        · rename_i next isNext
          rw [isNext] at same
          obtain ⟨kept, ends⟩ :=
            recover_processed config next
          exact itemProgress_of_processed rest (kept.trans same) ends

theorem processItems_progress (state : DrainState) (items : List (Bool × QueueItem)) :
    Progress state (items.map Prod.snd) (state.processItems config items) := by
  induction items generalizing state with
  | nil => exact ⟨[], nil_prefix, (append_nil _).symm, .inr (.inr rfl)⟩
  | cons entry rest ih =>
    obtain ⟨stop, item⟩ := entry
    have first := processItem_progress config stop item state (rest.map Prod.snd)
    rw [processItems]
    split
    · rename_i next isNext
      rw [isNext] at first
      rcases first with ⟨_, handed⟩ | ⟨ends, _⟩
      · obtain ⟨front, isFront, processed, far⟩ := (ih next).processed
        have whole : (((stop, item) :: rest).map Prod.snd).filter
            QueueItem.hasTag = [item].filter QueueItem.hasTag ++
              (rest.map Prod.snd).filter QueueItem.hasTag := by
          rw [map_cons, ← singleton_append, filter_append]
        refine ⟨[item].filter QueueItem.hasTag ++ front, ?_, ?_, ?_⟩
        · rw [whole]
          exact (prefix_append_right_inj _).mpr isFront
        · rw [processed, handed, append_assoc]
        · rw [whole]
          exact far.imp_right fun far =>
            far.imp_right fun all => by rw [all]
      · exact absurd rfl ends
    · rename_i leaves
      rcases first with ⟨goesOn, _⟩ | ⟨_, progress⟩
      · exact (leaves _ (Prod.ext rfl goesOn)).elim
      · exact progress

def queueItems (rounds : List Round) : List QueueItem :=
  rounds.flatMap fun round => (round.batch.getD []).map Prod.snd

def ended (state : DrainState) : Bool := state.jobDone || state.crashed

theorem endLoop_ended (outcome : Outcome) : (endLoop outcome).ended = true := by
  cases outcome with
  | ok state => rfl
  | raised state => exact Bool.or_true _

theorem endLoop_processed (callback : Callback) (state : DrainState) :
    (endLoop (state.callBack config callback
      fun _ state => state)).processed = state.processed := by
  rcases callBack_state callback (fun _ state => state) state with
    ⟨b, returns⟩ | raises
  · rw [returns]
    rfl
  · rw [raises]
    rfl

theorem step_ended (isEnded : state.ended = true) (round : Round) :
    step config state round = state := by
  unfold step
  exact if_pos isEnded

theorem run_ended (isEnded : state.ended = true) (rounds : List Round) :
    run config state rounds = state := by
  induction rounds with
  | nil => rfl
  | cons round rest ih =>
    rw [run, foldl_cons, step_ended config isEnded]
    exact ih

theorem processBatch_progress (state : DrainState) (items : List (Bool × QueueItem)) :
    ∃ front, front <+: (items.map Prod.snd).filter QueueItem.hasTag ∧
      (state.processBatch config items).state.processed = state.processed ++ front ∧
      ((∃ next, state.processBatch config items = .raised next) ∨
        (state.processBatch config items).state.jobDone = true ∨
        front = (items.map Prod.snd).filter QueueItem.hasTag) := by
  obtain ⟨front, isFront, processed, far⟩ :=
    (processItems_progress config state items).processed
  refine ⟨front, isFront, ?_⟩
  unfold processBatch
  split
  · rename_i next isNext
    rw [isNext] at processed
    exact ⟨processed, .inl ⟨next, rfl⟩⟩
  · rename_i next isNext
    rw [isNext] at processed far
    exact ⟨processed, .inr (far.imp_right fun far =>
      far.resolve_left nofun)⟩
  · rename_i next after notRaised _ isNext
    rw [isNext] at processed far
    have same := flushBuffers_same config next
    refine ⟨same.processed.trans processed, .inr ?_⟩
    rcases far with done | raised | all
    · exact .inl (same.jobDone.trans done)
    · exact (notRaised raised).elim
    · exact .inr all

theorem step_progress (state : DrainState) (round : Round) :
    ∃ front, front <+: (queueItems [round]).filter QueueItem.hasTag ∧
      (step config state round).processed = state.processed ++ front ∧
      ((step config state round).ended = true ∨
        front = (queueItems [round]).filter QueueItem.hasTag) := by
  have nothing : ∀ next : DrainState, next.processed = state.processed → next.ended = true →
      ∃ front, front <+: (queueItems [round]).filter QueueItem.hasTag ∧
        next.processed = state.processed ++ front ∧
        (next.ended = true ∨ front = (queueItems [round]).filter QueueItem.hasTag) :=
    fun next same isEnded =>
      ⟨[], nil_prefix, same.trans (append_nil _).symm, .inl isEnded⟩
  unfold step
  split_ifs
  · next isEnded => exact nothing state rfl isEnded
  · exact nothing _ (endLoop_processed config _ state) (endLoop_ended _)
  · split
    · exact nothing _ (endLoop_processed config _ state) (endLoop_ended _)
    · rename_i drained
      refine ⟨[], nil_prefix, (append_nil _).symm, .inr ?_⟩
      simp [queueItems, drained]
    · rename_i items notEmpty drained
      have batch : queueItems [round] = items.map Prod.snd := by simp [queueItems, drained]
      obtain ⟨front, isFront, processed, far⟩ :=
        processBatch_progress config state items
      rw [batch]
      refine ⟨front, isFront, ?_⟩
      split
      · rename_i next isNext
        rw [isNext] at processed far
        refine ⟨processed, ?_⟩
        rcases far with ⟨_, raises⟩ | done | all
        · cases raises
        · exact .inl (by rw [ended, show next.jobDone = true from done, Bool.true_or])
        · exact .inr all
      · rename_i next isNext
        rw [isNext] at processed
        rcases callBack_state (.error .batchFailed) (fun _ state => state) next.setJobDone with
          ⟨b, returns⟩ | raises
        · rw [returns]
          exact ⟨processed, .inl rfl⟩
        · rw [raises]
          exact ⟨processed, .inl rfl⟩

theorem run_processed (state : DrainState) (rounds : List Round) :
    ∃ front, front <+: (queueItems rounds).filter QueueItem.hasTag ∧
      (run config state rounds).processed = state.processed ++ front := by
  induction rounds generalizing state with
  | nil => exact ⟨[], nil_prefix, (append_nil _).symm⟩
  | cons round rest ih =>
    obtain ⟨first, isFirst, handed, far⟩ := step_progress config state round
    obtain ⟨front, isFront, processed⟩ := ih (step config state round)
    have whole : (queueItems (round :: rest)).filter QueueItem.hasTag =
        (queueItems [round]).filter QueueItem.hasTag ++
          (queueItems rest).filter QueueItem.hasTag := by
      simp [queueItems]
    rw [whole]
    rcases far with isEnded | all
    · have stays := run_ended config isEnded rest
      refine ⟨first, isFirst.trans (prefix_append _ _), ?_⟩
      rw [← handed]
      exact congrArg DrainState.processed stays
    · refine ⟨first ++ front, ?_, ?_⟩
      · rw [all]
        exact (prefix_append_right_inj _).mpr isFront
      · rw [← append_assoc, ← handed]
        exact processed

variable {config}

/-- **Display.** Where no call of `apply_chunk_fn` raises and every turn is
allowed: markers alternate, thoughts are shown in a block and texts outside of
one, every end comes with the block closed and nothing buffered; and what is
shown is what the processed items ask for, in the order of the queue. -/
theorem run_display (shows : Shows config) {rounds : List Round}
    (along : Along (step config) (Allowed config) init rounds) :
    let final := run config init rounds
    (blockAfter false final.events).isSome = true ∧
      Piece.joined (shownPieces final.events) = Piece.joined
          (itemPieces config.showSearchThinking final.processed) ∧
      final.processed <+: (queueItems rounds).filter QueueItem.hasTag := by
  intro final
  have settled := run_settled shows along
  refine ⟨?_, ?_, ?_⟩
  · rw [settled.block]
    rfl
  · rw [Piece.joined_eq_iff, ← settled.cells, settled.noContent, settled.noThinking]
    simp [final]
  · obtain ⟨front, isFront, processed⟩ := run_processed config init rounds
    have same : final.processed = front := processed
    rw [same]
    exact isFront

def plainConfig : DrainConfig where
  applyRaises _ _ := false
  reply _ _ := .value true
  showSearchThinking := false
  hasStatusFn := false
  hasApprovalRequired := false

abbrev thought : QueueItem :=
  .tuple (some .thinking) [.text "why".toList]

/-- A thought and a text, and the end of the stream in the next batch. -/
theorem run_display_streamDone : (blockAfter false (run plainConfig init
      [⟨false, some [(false, thought), (false, .tuple (some .chunk) [.text "so".toList])]⟩,
        ⟨false, some [(false, .tuple (some .streamDone) [])]⟩]).events).isSome =
      true :=
  (@run_display plainConfig (fun _ _ => rfl) [⟨false, some [(false, thought),
      (false, .tuple (some .chunk) [.text "so".toList])]⟩,
    ⟨false, some [(false, .tuple (some .streamDone) [])]⟩]
    ⟨fun _ _ entry member => by
        rcases mem_cons.mp member with rfl | member
        · exact ⟨nofun, _, rfl⟩
        · rw [mem_singleton.mp member]
          exact ⟨nofun, _, rfl⟩,
      fun _ _ entry member => by
        rw [mem_singleton.mp member]
        exact ⟨nofun, trivial⟩,
      trivial⟩).1

/-- A stop between two batches finds the block of a thought open. -/
theorem run_display_stopped : blockAfter false (run plainConfig init
      [⟨false, some [(false, thought)]⟩, ⟨true, none⟩]).events = none ∧
    (run plainConfig init [⟨false, some [(false, thought)]⟩, ⟨true, none⟩]).events =
      [.shown .openBlock, .shown (.thinking "why".toList), .called .stopped []] := by
  decide

end DrainState

end WriterAgent.Framework
