import Mathlib.Data.List.Sort
import Mathlib.Logic.Function.Basic
import WriterAgent.Foundations.Json
import WriterAgent.Foundations.Runs

/-!
# The stores of the chat history

`plugin/chatbot/history_db.py`: a message is a dictionary of JSON values, and
a session's messages are the rows of a table or one file that every added
message is written to again.  What `json.load` reads back from a whole file is
what `json.dump` was given, and a file cut short is no JSON text.
-/

namespace WriterAgent.Chatbot

open PyText

variable {ν : Type}

/-- The texts of the text items, each as the value that `" ".join` gets. -/
def textParts (items : List (Json ν)) : List (Json ν) :=
  items.filterMap fun item =>
    match item with
    | .obj fields =>
      if (Json.get fields "type").isText "text" then
        some (Json.getD fields "text" (.text ""))
      else none
    | _ => none

def hasAudio (items : List (Json ν)) : Bool :=
  items.any fun item =>
    match item with
    | .obj fields => (Json.get fields "type").isText "input_audio"
    | _ => false

/-- `" ".join(parts)` raises on a part that is no text. -/
def joinTexts (parts : List (Json ν)) : Except PyException Text :=
  match parts.mapM Json.toText? with
  | some texts => .ok (" ".toList.intercalate texts)
  | none => .error .typeError

def audioMark : Text := "[Audio Attached]".toList

def storedContent (content : Json ν) : Except PyException (Json ν) :=
  match content with
  | .arr items => do
    let joined ← joinTexts (textParts items)
    if hasAudio items then
      if joined.isEmpty then return .str audioMark
      else return .str (joined ++ " ".toList ++ audioMark)
    else return .str joined
  | other => .ok other

def messageToDict (role content toolCalls : Json ν) : Except PyException (Json ν) := do
  let stored ← storedContent content
  return .obj [("role".toList, role), ("content".toList, stored), ("tool_calls".toList, toolCalls)]

inductive HistoryCall (ν : Type) where
  | addMessage (session : Text) (role content toolCalls : Json ν)
  | getMessages (session : Text)
  | clear (session : Text)

/-- What a call returns. -/
inductive HistoryAnswer (ν : Type) where
  | nothing
  | messages (messages : List (Json ν))
  | raised (exception : PyException)

/-- How a write of the file ends: it is done, the file could not be opened,
only a part was written, or closing the whole file failed. -/
inductive WriteOutcome where
  | done
  | unopened
  | cut
  | unclosed
  deriving DecidableEq, Repr

/-- The file system during a call.  A file that is not readable may be one
that `os.path.exists` does not see. -/
structure HistoryFaults where
  readable : Bool
  write : WriteOutcome
  removable : Bool
  deriving DecidableEq, Repr

def HistoryFaults.none : HistoryFaults := ⟨true, .done, true⟩

/-- The file of a session: a list of messages, or the front of its text. -/
inductive HistoryFile (ν : Type) where
  | whole (messages : List (Json ν))
  | part

/-- The history directory, with the files by their session. -/
structure JSONHistory (ν : Type) where
  files : PyDict Text (HistoryFile ν)

namespace JSONHistory

def init : JSONHistory ν := ⟨.empty⟩

def load (history : JSONHistory ν) (session : Text) (readable : Bool) : Option (List (Json ν)) :=
  match history.files.get? session with
  | none => some []
  | some (.whole messages) => if readable then some messages else none
  | some .part => none

def getMessages (history : JSONHistory ν) (session : Text) (readable : Bool) : List (Json ν) :=
  (history.load session readable).getD []

def put (history : JSONHistory ν) (session : Text) (file : HistoryFile ν) : JSONHistory ν :=
  ⟨history.files.set session file⟩

def save (history : JSONHistory ν) (session : Text)
    (messages : List (Json ν)) (write : WriteOutcome) : JSONHistory ν :=
  match write with
  | .done | .unclosed => history.put session (.whole messages)
  | .cut => history.put session .part
  | .unopened => history

def addMessage (history : JSONHistory ν) (session : Text)
    (role content toolCalls : Json ν) (faults : HistoryFaults) :
    JSONHistory ν × HistoryAnswer ν :=
  match messageToDict role content toolCalls with
  | .error exception => (history, .raised exception)
  | .ok message =>
    let messages := history.getMessages session faults.readable ++ [message]
    (history.save session messages faults.write, .nothing)

def clear (history : JSONHistory ν) (session : Text) (removable : Bool) : JSONHistory ν :=
  if removable then ⟨history.files.pop session⟩ else history

def answer (history : JSONHistory ν) (action : HistoryCall ν × HistoryFaults) :
    JSONHistory ν × HistoryAnswer ν :=
  match action.1 with
  | .addMessage session role content toolCalls =>
    history.addMessage session role content toolCalls action.2
  | .getMessages session => (history, .messages (history.getMessages session action.2.readable))
  | .clear session => (history.clear session action.2.removable, .nothing)

end JSONHistory

structure MessageRow (ν : Type) where
  id : ℕ
  sessionId : Text
  message : Json ν

/-- The table `message_store`; `nextId` is the next id of its autoincremented
key, which is never used again. -/
structure SQLite3History (ν : Type) where
  rows : List (MessageRow ν)
  nextId : ℕ

namespace SQLite3History

def init : SQLite3History ν := ⟨[], 1⟩

def addMessage (db : SQLite3History ν) (session : Text) (role content toolCalls : Json ν) :
    SQLite3History ν × HistoryAnswer ν :=
  match messageToDict role content toolCalls with
  | .error exception => (db, .raised exception)
  | .ok message => (⟨db.rows ++ [⟨db.nextId, session, message⟩], db.nextId + 1⟩, .nothing)

/-- `SELECT message … WHERE session_id = ? ORDER BY id ASC`. -/
def getMessages (db : SQLite3History ν) (session : Text) : List (Json ν) :=
  ((db.rows.filter (·.sessionId == session)).mergeSort
    fun row other => decide (row.id ≤ other.id)).map (·.message)

def clear (db : SQLite3History ν) (session : Text) : SQLite3History ν :=
  { db with rows := db.rows.filter (·.sessionId != session) }

def answer (db : SQLite3History ν) (call : HistoryCall ν) : SQLite3History ν × HistoryAnswer ν :=
  match call with
  | .addMessage session role content toolCalls => db.addMessage session role content toolCalls
  | .getMessages session => (db, .messages (db.getMessages session))
  | .clear session => (db.clear session, .nothing)

end SQLite3History

end WriterAgent.Chatbot

/-!
## The chat history as an append log

Next to the files stands what the log should be: the messages of the calls
that added one since the last clear.
-/

namespace WriterAgent.Chatbot

open PyText

variable {ν : Type}

/-- The history files, and the messages added to each session since its last
successful clear. -/
structure HistoryLog (ν : Type) where
  history : JSONHistory ν
  added : Text → List (Json ν)

variable {log : HistoryLog ν} {db : SQLite3History ν} {session : Text}
  {readable : Bool} {message : Json ν}

namespace HistoryLog

def init : HistoryLog ν := ⟨.init, fun _ => []⟩

def addedAfter (log : HistoryLog ν) (call : HistoryCall ν)
    (faults : HistoryFaults) : Text → List (Json ν) :=
  match call with
  | .addMessage session role content toolCalls =>
    match messageToDict role content toolCalls, faults.write with
    | .ok message, .done => Function.update log.added session (log.added session ++ [message])
    | _, _ => log.added
  | .getMessages _ => log.added
  | .clear session =>
    if faults.removable then Function.update log.added session []
    else log.added

def step (log : HistoryLog ν) (action : HistoryCall ν × HistoryFaults) : HistoryLog ν :=
  ⟨(log.history.answer action).1, log.addedAfter action.1 action.2⟩

def Truthful (log : HistoryLog ν) : Prop :=
  ∀ session readable, log.history.load session readable ≠ none →
    log.history.getMessages session readable = log.added session

/-- A message is added to messages that are read, or to none; and when the
file cannot be closed, what was written is what was added before. -/
def AddsToRead (log : HistoryLog ν) (action : HistoryCall ν × HistoryFaults) :
    Prop :=
  match action.1 with
  | .addMessage session role content toolCalls =>
    ∀ message, messageToDict role content toolCalls = .ok message →
      (action.2.write = .done → log.history.load session action.2.readable ≠ none ∨
          log.added session = []) ∧
      (action.2.write = .unclosed → log.history.load session action.2.readable = none ∧
          log.added session = [message])
  | _ => True

/-- A whole file holds these messages, and without a file there are none. -/
def FileTells (file : Option (HistoryFile ν)) (messages : List (Json ν)) :
    Prop :=
  match file with
  | none => messages = []
  | some (.whole written) => written = messages
  | some .part => True

theorem truthful_iff : log.Truthful ↔ ∀ session, FileTells (log.history.files.get? session)
      (log.added session) := by
  constructor
  · intro truthful session
    have told := truthful session true
    rw [JSONHistory.getMessages, JSONHistory.load] at told
    cases found : log.history.files.get? session with
    | none =>
      rw [found] at told
      exact (told nofun).symm
    | some file =>
      rw [found] at told
      cases file with
      | part => trivial
      | whole messages => exact told nofun
  · intro tells session readable
    have told := tells session
    rw [JSONHistory.getMessages, JSONHistory.load]
    cases found : log.history.files.get? session with
    | none =>
      rw [found] at told
      exact fun _ => told.symm
    | some file =>
      rw [found] at told
      cases file with
      | part => exact fun absent => absurd rfl absent
      | whole messages =>
        cases readable with
        | true => exact fun _ => told
        | false => exact fun absent => absurd rfl absent

theorem truthful_update_iff {log : HistoryLog ν} (truthful : log.Truthful)
    {session : Text} {file : HistoryFile ν} {messages : List (Json ν)} :
    Truthful ⟨log.history.put session file, Function.update log.added session messages⟩ ↔
      FileTells (some file) messages := by
  rw [truthful_iff]
  have before := truthful_iff.mp truthful
  constructor
  · intro tells
    have told := tells session
    dsimp only at told
    rwa [Function.update_self, JSONHistory.put, PyDict.get?_set, if_pos rfl] at told
  · intro told other
    dsimp only
    rw [JSONHistory.put, PyDict.get?_set]
    by_cases same : other = session
    · rwa [same, Function.update_self, if_pos rfl]
    · rw [Function.update_of_ne same, if_neg same]
      exact before other

theorem getMessages_cases (truthful : log.Truthful) (session : Text) (readable : Bool) :
    log.history.load session readable = none ∧ log.history.getMessages session readable = [] ∨
      log.history.load session readable ≠ none ∧
        log.history.getMessages session readable = log.added session := by
  by_cases isRead : log.history.load session readable = none
  · left
    exact ⟨isRead, by rw [JSONHistory.getMessages, isRead]; rfl⟩
  · right
    exact ⟨isRead, truthful session readable isRead⟩

theorem truthful_done_iff (truthful : log.Truthful) : Truthful ⟨log.history.put session
          (.whole (log.history.getMessages session readable ++ [message])),
        Function.update log.added session (log.added session ++ [message])⟩ ↔
      log.history.load session readable ≠ none ∨ log.added session = [] := by
  rw [truthful_update_iff truthful, FileTells, List.append_left_inj]
  rcases getMessages_cases truthful session readable with
    ⟨unread, empty⟩ | ⟨isRead, same⟩
  · rw [empty, unread]
    exact ⟨fun nothing => .inr nothing.symm, fun holds => (holds.resolve_left (· rfl)).symm⟩
  · exact ⟨fun _ => .inl isRead, fun _ => same⟩

theorem truthful_unclosed_iff (truthful : log.Truthful) : Truthful ⟨log.history.put session
          (.whole (log.history.getMessages session readable ++ [message])),
        log.added⟩ ↔
      log.history.load session readable = none ∧ log.added session = [message] := by
  have unchanged : log.added = Function.update log.added session (log.added session) :=
    (Function.update_eq_self session log.added).symm
  rw [unchanged, truthful_update_iff truthful, ← unchanged]
  rcases getMessages_cases truthful session readable with
    ⟨unread, empty⟩ | ⟨isRead, same⟩
  · rw [empty, unread]
    exact ⟨fun told => ⟨rfl, told.symm⟩, fun holds => holds.2.symm⟩
  · rw [same]
    refine ⟨fun longer => ?_, fun holds => absurd holds.1 isRead⟩
    cases List.append_right_eq_self.mp longer

/-- **Step.** A call keeps the log told exactly when it adds to what is
read. -/
theorem truthful_step_iff (truthful : log.Truthful) (action : HistoryCall ν × HistoryFaults) :
    (log.step action).Truthful ↔ log.AddsToRead action := by
  obtain ⟨call, faults⟩ := action
  cases call with
  | getMessages session => exact ⟨fun _ => trivial, fun _ => truthful⟩
  | clear session =>
    refine ⟨fun _ => trivial, fun _ => ?_⟩
    rw [truthful_iff] at truthful ⊢
    intro other
    simp only [step, addedAfter, JSONHistory.answer, JSONHistory.clear]
    cases faults.removable with
    | false => exact truthful other
    | true =>
      rw [if_pos rfl, if_pos rfl, PyDict.get?_pop]
      by_cases same : other = session
      · rw [if_pos same, same, Function.update_self]
        rfl
      · rw [if_neg same, Function.update_of_ne same]
        exact truthful other
  | addMessage session role content toolCalls =>
    simp only [step, AddsToRead, addedAfter, JSONHistory.answer, JSONHistory.addMessage]
    cases stored : messageToDict role content toolCalls with
    | error exception => exact ⟨fun _ => by rintro _ ⟨⟩, fun _ => truthful⟩
    | ok message =>
      simp only [Except.ok.injEq, forall_eq']
      cases written : faults.write with
      | done =>
        rw [JSONHistory.save, truthful_done_iff truthful]
        exact ⟨fun holds => ⟨fun _ => holds, by rintro ⟨⟩⟩, fun holds => holds.1 rfl⟩
      | unclosed =>
        rw [JSONHistory.save, truthful_unclosed_iff truthful]
        exact ⟨fun holds => ⟨by rintro ⟨⟩, fun _ => holds⟩, fun holds => holds.2 rfl⟩
      | unopened => exact ⟨fun _ => ⟨by rintro ⟨⟩, by rintro ⟨⟩⟩, fun _ => truthful⟩
      | cut =>
        refine ⟨fun _ => ⟨by rintro ⟨⟩, by rintro ⟨⟩⟩, fun _ => ?_⟩
        have unchanged := Function.update_eq_self session log.added
        have cut := (@truthful_update_iff ν log truthful session .part
          (log.added session)).mpr trivial
        rwa [unchanged] at cut

theorem truthful_init : (init : HistoryLog ν).Truthful :=
  truthful_iff.mpr fun _ => rfl

end HistoryLog

namespace SQLite3History

structure Ordered (db : SQLite3History ν) : Prop where
  ascending : db.rows.Pairwise fun row other => row.id < other.id
  below : ∀ row ∈ db.rows, row.id < db.nextId

theorem Ordered.getMessages_eq (ordered : db.Ordered) (session : Text) :
    db.getMessages session = (db.rows.filter (·.sessionId == session)).map (·.message) := by
  rw [getMessages, List.mergeSort_of_pairwise]
  apply (ordered.ascending.filter _).imp
  intro row other less
  exact decide_eq_true less.le

theorem ordered_init : (init : SQLite3History ν).Ordered where
  ascending := .nil
  below := nofun

def insert (db : SQLite3History ν) (session : Text) (message : Json ν) : SQLite3History ν :=
  ⟨db.rows ++ [⟨db.nextId, session, message⟩], db.nextId + 1⟩

theorem Ordered.insert (ordered : db.Ordered) (session : Text) (message : Json ν) :
    (db.insert session message).Ordered where
  ascending := List.pairwise_append.mpr ⟨ordered.ascending,
    List.pairwise_singleton _ _, fun row member other isLast => by
      rw [List.mem_singleton.mp isLast]
      exact ordered.below row member⟩
  below row member := by
    rcases List.mem_append.mp member with old | last
    · exact Nat.lt_succ_of_lt (ordered.below row old)
    · rw [List.mem_singleton.mp last]
      exact Nat.lt_succ_self _

theorem Ordered.clear (ordered : db.Ordered) (session : Text) : (db.clear session).Ordered where
  ascending := ordered.ascending.filter _
  below row member := ordered.below row (List.mem_filter.mp member).1

theorem Ordered.getMessages_insert (ordered : db.Ordered) (session other : Text)
    (message : Json ν) :
    (db.insert session message).getMessages other =
      if other = session then db.getMessages other ++ [message]
      else db.getMessages other := by
  rw [(ordered.insert session message).getMessages_eq, ordered.getMessages_eq,
    SQLite3History.insert, List.filter_append]
  by_cases same : other = session
  · simp [same]
  · simp [same, Ne.symm same]

theorem Ordered.getMessages_clear (ordered : db.Ordered) (session other : Text) :
    (db.clear session).getMessages other =
      if other = session then [] else db.getMessages other := by
  rw [(ordered.clear session).getMessages_eq, ordered.getMessages_eq,
    SQLite3History.clear, List.filter_filter]
  by_cases same : other = session
  · simp [same]
  · rw [if_neg same]
    congr 1
    apply List.filter_congr
    intro row _
    by_cases isOther : row.sessionId = other
    · simp [isOther, same]
    · simp [isOther]

end SQLite3History

/-- The files and the table hold the same messages of every session. -/
structure SameMessages (history : JSONHistory ν) (db : SQLite3History ν) : Prop where
  ordered : db.Ordered
  same : ∀ session, history.load session true = some (db.getMessages session)

namespace SameMessages

variable {history : JSONHistory ν} {db : SQLite3History ν}

theorem init : SameMessages (ν := ν) .init .init where
  ordered := SQLite3History.ordered_init
  same session := by
    rw [SQLite3History.ordered_init.getMessages_eq]
    rfl

theorem getMessages (same : SameMessages history db) (session : Text) :
    history.getMessages session true = db.getMessages session := by
  rw [JSONHistory.getMessages, same.same, Option.getD_some]

theorem load_put (history : JSONHistory ν) (session other : Text) (messages : List (Json ν)) :
    (history.put session (.whole messages)).load other true =
      if other = session then some messages else history.load other true := by
  rw [JSONHistory.load, JSONHistory.put, PyDict.get?_set]
  by_cases same : other = session
  · rw [if_pos same, if_pos same]
    rfl
  · rw [if_neg same, if_neg same, JSONHistory.load]

theorem load_clear (history : JSONHistory ν) (session other : Text) :
    (history.clear session true).load other true =
      if other = session then some [] else history.load other true := by
  rw [JSONHistory.clear, if_pos rfl, JSONHistory.load, PyDict.get?_pop]
  by_cases same : other = session
  · rw [if_pos same, if_pos same]
  · rw [if_neg same, if_neg same, JSONHistory.load]

theorem answer (same : SameMessages history db) (call : HistoryCall ν) :
    (history.answer (call, .none)).2 = (db.answer call).2 ∧
      SameMessages (history.answer (call, .none)).1 (db.answer call).1 := by
  cases call with
  | getMessages session => exact ⟨congrArg HistoryAnswer.messages (same.getMessages session), same⟩
  | clear session =>
    refine ⟨rfl, same.ordered.clear session, fun other => ?_⟩
    rw [JSONHistory.answer, SQLite3History.answer, HistoryFaults.none,
      load_clear, same.ordered.getMessages_clear, same.same]
    split <;> rfl
  | addMessage session role content toolCalls =>
    simp only [JSONHistory.answer, SQLite3History.answer,
      JSONHistory.addMessage, SQLite3History.addMessage, HistoryFaults.none]
    cases stored : messageToDict role content toolCalls with
    | error exception => exact ⟨rfl, same⟩
    | ok message =>
      refine ⟨rfl, same.ordered.insert session message, fun other => ?_⟩
      have inserted :=
        same.ordered.getMessages_insert session other message
      simp only [JSONHistory.save]
      rw [load_put, same.getMessages]
      refine Eq.trans ?_ (congrArg some inserted.symm)
      rw [same.same]
      by_cases isOther : other = session
      · rw [if_pos isOther, if_pos isOther, isOther]
      · rw [if_neg isOther, if_neg isOther]

end SameMessages

/-- **The append log.** In a run of calls under any faults every read that
succeeds gives the messages added since the last clear exactly when every
message is added to what is read; and without faults the files and the table
give the same answers. -/
theorem historyFiles_tellLog_iff (run : List (HistoryCall ν × HistoryFaults))
    (calls : List (HistoryCall ν)) :
    (Along HistoryLog.step (fun log action => (log.step action).Truthful) .init run ↔
      Along HistoryLog.step HistoryLog.AddsToRead .init run) ∧
    answers JSONHistory.answer .init (calls.map fun call => (call, .none)) =
      answers SQLite3History.answer .init calls := by
  constructor
  · apply Along.iff_of_invariant HistoryLog.Truthful
    · exact fun log action _ kept => kept
    · exact fun log action truthful =>
        HistoryLog.truthful_step_iff truthful action
    · exact HistoryLog.truthful_init
  · exact answers_eq_of_simulation _ SameMessages
      (fun history db call same => same.answer call) SameMessages.init calls

/-- A message is added; then another, whose own read of the file fails. -/
def unreadAddition : List (HistoryCall ℤ × HistoryFaults) :=
  [(.addMessage ['s'] (.text "user") (.text "first") .null, .none),
    (.addMessage ['s'] (.text "user") (.text "second") .null, ⟨false, .done, true⟩)]

/-- The second message replaces the first. -/
theorem firstMessage_lost : ¬ ∀ run : List (HistoryCall ℤ × HistoryFaults),
    Along HistoryLog.step (fun log action => (log.step action).Truthful) .init run := by
  intro told
  obtain ⟨-, truthful, -⟩ := told unreadAddition
  have same := truthful ['s'] true nofun
  have lengths : 1 = 2 := congrArg List.length same
  cases lengths

end WriterAgent.Chatbot
