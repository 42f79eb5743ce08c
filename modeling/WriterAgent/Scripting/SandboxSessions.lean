import WriterAgent.Foundations.Dict
import WriterAgent.Foundations.EventLog
import WriterAgent.Foundations.Runs
import WriterAgent.Foundations.Text

/-!
# Sandbox sessions of the worker

`plugin/scripting/venv/venv_sandbox.py`: the child keeps one executor for each
session and for each init session, and the hash of the init script that the
latter has run.  What a piece of code does to the namespace of its executor is
given with the call.  DuckDB catalogs are kept elsewhere and left out.
-/

namespace WriterAgent.Scripting

open PyText

variable {ν : Type}

/-- `dict.update`. -/
def updateDict (dict : PyDict Text ν) (pairs : List (Text × ν)) : PyDict Text ν :=
  pairs.foldl (fun dict entry => dict.set entry.1 entry.2) dict

/-- `LocalPythonExecutor`.  `source` and `seeds` are not in the code: the hash
of the init script that has run in the executor, and of those whose bindings
have been copied into it. -/
structure SandboxExecutor (ν : Type) where
  state : PyDict Text ν
  customTools : PyDict Text ν
  source : Option Text
  seeds : List Text

/-- How a piece of code ends: with a result, with one that cannot be
serialized, or with an exception. -/
inductive CodeEnd where
  | served
  | unserializable
  | raised
  deriving DecidableEq

/-- What a piece of code does to `state` and `custom_tools`. -/
abbrev CodeEffect (ν : Type) :=
  PyDict Text ν → PyDict Text ν → PyDict Text ν × PyDict Text ν × CodeEnd

def initStateSkipKeys : List Text :=
  ["__name__", "_print_outputs", "_operations_count", "result", "data",
    "ranges", "xl", "session_duckdb", "invalidate_session_tables", "run_sql",
    "scoped_dir"].map String.toList

/-- `key.startswith("_")`. -/
def isPrivate (key : Text) : Bool := ['_'].isPrefixOf key

namespace SandboxExecutor

/-- `_new_executor`. -/
def new (mainName : ν) : SandboxExecutor ν :=
  ⟨PyDict.empty.set "__name__".toList mainName, PyDict.empty, none, []⟩

/-- `send_variables` and `custom_tools.update` with what the host injects for
a run: auto imports, `data`, `ranges`, `xl`, the bindings of the call and the
helpers for DuckDB. -/
def inject (executor : SandboxExecutor ν) (sent tools : List (Text × ν)) : SandboxExecutor ν :=
  { executor with
    state := updateDict executor.state sent
    customTools := updateDict executor.customTools tools }

/-- `_snapshot_init_bindings`. -/
def snapshotBindings (executor : SandboxExecutor ν) : List (Text × ν) :=
  executor.state.entries.filter fun entry =>
    !initStateSkipKeys.contains entry.1 && !isPrivate entry.1

/-- `_seed_executor_from_init`, when the init session has an executor. -/
def seedFrom (executor init : SandboxExecutor ν) : SandboxExecutor ν :=
  let bound := updateDict executor.state init.snapshotBindings
  let tools := init.customTools.entries
  { executor with
    state := updateDict bound tools
    customTools := updateDict executor.customTools tools
    seeds := executor.seeds ++ init.source.toList }

def syncCustomTools (callable : ν → Bool) (executor : SandboxExecutor ν) : SandboxExecutor ν :=
  { executor with
    customTools := executor.state.entries.foldl (fun tools entry =>
      if callable entry.2 && !tools.contains entry.1 && !isPrivate entry.1 then
        tools.set entry.1 entry.2
      else tools) executor.customTools }

def restorePriorResult (executor : SandboxExecutor ν) (prior : Option ν) : SandboxExecutor ν :=
  let key := "result".toList
  { executor with
    state := match prior with
      | some value => executor.state.set key value
      | none => executor.state.pop key }

/-- `_run_on_executor`: the executor afterwards and whether the status is
`ok`. -/
def runOn (callable : ν → Bool) (executor : SandboxExecutor ν)
    (code : CodeEffect ν) : SandboxExecutor ν × Bool :=
  let prior := executor.state.get? "result".toList
  match code executor.state executor.customTools with
  | (state, tools, ended) =>
    let after := { executor with state := state, customTools := tools }
    match ended with
    | .served => (after.syncCustomTools callable, true)
    | .unserializable => ((after.syncCustomTools callable).restorePriorResult prior, false)
    | .raised => (after.restorePriorResult prior, false)

end SandboxExecutor

def initMark : Text := ":init".toList

/-- `session_id.endswith(":init")`. -/
def isInitId (session : Text) : Bool := initMark.isSuffixOf session

def relatedInitSessionId (session : Text) : Option Text :=
  if "calc:".toList.isPrefixOf session && !isInitId session then
    some (session ++ initMark)
  else none

def cellSessionForInit (initSession : Text) : Option Text :=
  if isInitId initSession then
    some (initSession.take (initSession.length - initMark.length))
  else none

/-- A run of a cell: the session it shares, the hash it was called with, the
names that the host has injected, the hashes of the init scripts its namespace
was seeded from, and the namespace (`state` and `custom_tools`) before and
after its code. -/
structure CellRun (ν : Type) where
  session : Option Text
  initHash : Option Text
  injected : List Text
  seeds : List Text
  entry : PyDict Text ν × PyDict Text ν
  exit : PyDict Text ν × PyDict Text ν

/-- What has happened: a session was reset, a call came with an init script, an
init script has run, a cell has run. -/
inductive KernelEvent (ν : Type) where
  | reset (session : Text)
  | passed (initSession hash : Text)
  | initRan (initSession hash : Text) (ok : Bool)
  | cellRan (run : CellRun ν)

/-- `_SESSION_EXECUTORS` and `_INIT_SCRIPT_HASH`, with the events so far. -/
structure Sandbox (ν : Type) where
  executors : PyDict Text (SandboxExecutor ν)
  initHash : PyDict Text Text
  log : List (KernelEvent ν)

/-- The arguments of `run_sandboxed_code`, with what the host injects for the
cell and for the init script, and what the two do. -/
structure SandboxRun (ν : Type) where
  sessionId : Option Text
  initScript : Option Text
  initSessionId : Option Text
  initScriptHash : Option Text
  code : CodeEffect ν
  sent : List (Text × ν)
  tools : List (Text × ν)
  initCode : CodeEffect ν
  initSent : List (Text × ν)

/-- `init_sid`: an init session id that is not blank. -/
def SandboxRun.initSid (run : SandboxRun ν) : Option Text :=
  run.initSessionId.filter fun session => !(strip session).isEmpty

/-- `if session_id`: a session id that is not empty. -/
def SandboxRun.sharedSession (run : SandboxRun ν) : Option Text :=
  run.sessionId.filter fun session => !session.isEmpty

namespace Sandbox

def init : Sandbox ν := ⟨PyDict.empty, PyDict.empty, []⟩

def note (sandbox : Sandbox ν) (event : KernelEvent ν) : Sandbox ν :=
  { sandbox with log := sandbox.log ++ [event] }

/-- `_get_or_create_session_executor`. -/
def executorOf (mainName : ν) (sandbox : Sandbox ν) (session : Text) : SandboxExecutor ν :=
  (sandbox.executors.get? session).getD (.new mainName)

def putExecutor (sandbox : Sandbox ν) (session : Text) (executor : SandboxExecutor ν) : Sandbox ν :=
  { sandbox with executors := sandbox.executors.set session executor }

def popExecutor (sandbox : Sandbox ν) (session : Text) : Sandbox ν :=
  { sandbox with executors := sandbox.executors.pop session }

def popHash (sandbox : Sandbox ν) (session : Text) : Sandbox ν :=
  { sandbox with initHash := sandbox.initHash.pop session }

/-- `_clear_init_session_unlocked`. -/
def clearInitSession (sandbox : Sandbox ν) (initSession : Text) : Sandbox ν :=
  let cleared := (sandbox.popExecutor initSession).popHash initSession
  match cellSessionForInit initSession with
  | some cell => if cell.isEmpty then cleared else cleared.popExecutor cell
  | none => cleared

/-- `reset_sandbox_session`. -/
def resetSession (sandbox : Sandbox ν) (session : Text) : Sandbox ν :=
  if (strip session).isEmpty then sandbox
  else
    let popped := sandbox.popExecutor session
    let related := match relatedInitSessionId session with
      | some initSession => (popped.popExecutor initSession).popHash initSession
      | none => popped
    let cleared :=
      if isInitId session then related.popHash session else related
    cleared.note (.reset session)

/-- `_ensure_init_executed` from the point where the script runs. -/
def runInit (callable : ν → Bool) (mainName : ν) (sandbox : Sandbox ν)
    (initSession digest : Text) (run : SandboxRun ν) : Sandbox ν × Bool :=
  let executor := sandbox.executorOf mainName initSession
  let (after, ok) := (executor.inject run.initSent []).runOn callable run.initCode
  let ran := sandbox.note (.initRan initSession digest ok)
  if ok then
    ({ ran.putExecutor initSession { after with source := some digest } with
        initHash := ran.initHash.set initSession digest }, true)
  else ((ran.popExecutor initSession).popHash initSession, false)

/-- `_ensure_init_executed` on a script that is not blank; `false` when it
returns an error. -/
def ensureInitExecuted (callable : ν → Bool) (mainName : ν)
    (sandbox : Sandbox ν) (initSession digest : Text) (run : SandboxRun ν) :
    Sandbox ν × Bool :=
  let passed := sandbox.note (.passed initSession digest)
  match sandbox.initHash.get? initSession with
  | none => passed.runInit callable mainName initSession digest run
  | some prior =>
    if prior = digest then
      if sandbox.executors.contains initSession then (passed, true)
      else passed.runInit callable mainName initSession digest run
    else
      (passed.clearInitSession initSession).runInit callable mainName initSession digest run

/-- The bindings of the init session, copied into the executor of a cell. -/
def seeded (sandbox : Sandbox ν) (initSession : Option Text)
    (executor : SandboxExecutor ν) : SandboxExecutor ν :=
  match initSession.bind sandbox.executors.get? with
  | some init => executor.seedFrom init
  | none => executor

def cellEntry (mainName : ν) (sandbox : Sandbox ν) (run : SandboxRun ν) : SandboxExecutor ν :=
  let executor := match run.sharedSession with
    | some session => sandbox.executorOf mainName session
    | none => .new mainName
  (sandbox.seeded run.initSid executor).inject run.sent run.tools

/-- The run of a cell from `entry` to `after`. -/
def cellRun (run : SandboxRun ν) (entry after : SandboxExecutor ν) : CellRun ν where
  session := run.sharedSession
  initHash := run.initScriptHash
  injected := (run.sent ++ run.tools).map Prod.fst
  seeds := entry.seeds
  entry := (entry.state, entry.customTools)
  exit := (after.state, after.customTools)

/-- The part of `run_sandboxed_code` after the init script. -/
def runCell (callable : ν → Bool) (mainName : ν) (sandbox : Sandbox ν)
    (run : SandboxRun ν) : Sandbox ν :=
  let entry := sandbox.cellEntry mainName run
  let after := (entry.runOn callable run.code).1
  let ran := sandbox.note (.cellRan (cellRun run entry after))
  match run.sharedSession with
  | some session => ran.putExecutor session after
  | none => ran

def runSandboxedCode (callable : ν → Bool) (mainName : ν)
    (sandbox : Sandbox ν) (run : SandboxRun ν) : Sandbox ν :=
  match run.initSid with
  | none => sandbox.runCell callable mainName run
  | some initSession =>
    if (strip (run.initScript.getD [])).isEmpty then
      sandbox.runCell callable mainName run
    else
      match sandbox.ensureInitExecuted callable mainName initSession
          (run.initScriptHash.getD []) run with
      | (ready, true) => ready.runCell callable mainName run
      | (failed, false) => failed

end Sandbox

/-- An init script with its hash; its init session is that of `base`. -/
structure InitScript where
  base : Text
  script : Text
  hash : Text
  filled : (strip script).isEmpty = false

def InitScript.session (script : InitScript) : Text := script.base ++ initMark

/-- A call of `run_sandboxed_code` with a matching init session. -/
structure SandboxCall (ν : Type) where
  session : Option Text
  initScript : Option InitScript
  code : CodeEffect ν
  sent : List (Text × ν)
  tools : List (Text × ν)
  initCode : CodeEffect ν
  initSent : List (Text × ν)
  matched : ∀ id script, session = some id → initScript = some script → script.base = id

def SandboxCall.arguments (call : SandboxCall ν) : SandboxRun ν where
  sessionId := call.session
  initScript := call.initScript.map (·.script)
  initSessionId := call.initScript.map (·.session)
  initScriptHash := call.initScript.map (·.hash)
  code := call.code
  sent := call.sent
  tools := call.tools
  initCode := call.initCode
  initSent := call.initSent

inductive SandboxAction (ν : Type) where
  | run (call : SandboxCall ν)
  | reset (session : Text)

/-- `callable` is the builtin and `mainName` the string `"__main__"`. -/
def Sandbox.step (callable : ν → Bool) (mainName : ν) (sandbox : Sandbox ν) :
    SandboxAction ν → Sandbox ν
  | .run call => sandbox.runSandboxedCode callable mainName call.arguments
  | .reset session => sandbox.resetSession session

end WriterAgent.Scripting
