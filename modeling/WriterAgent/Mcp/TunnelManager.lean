import WriterAgent.Foundations.Runs
import WriterAgent.Mcp.TunnelState

/-!
# The tunnel manager

`plugin/mcp/tunnel.py`: `TunnelManager` runs the effects of the tunnel machine
on processes (`AsyncProcess`) and timers.  Their callbacks wait for the lock of
the manager, so they can be delivered at any later time: a line of output also
after its process has ended, the exit of a process also after `terminate`, and
a timer that has fired also after `cancel`.
-/

namespace WriterAgent.Mcp

open PyText

/-- What the manager uses of an entry of `PROVIDERS`. -/
structure ProviderInfo where
  binary : Text
  hasPreStart : Bool
  parseLine : Text → Option Text

/-- The provider table and `detect_tunnel_auth_error`. -/
structure Providers where
  info : Text → Option ProviderInfo
  detectAuthError : Text → Text → Option Text

/-- A started process with the provider its callbacks have closed over. -/
structure TunnelProcess where
  provider : Text
  alive : Bool
  exitDelivered : Bool
  deriving DecidableEq

/-- A started timer: waiting, past its delay with its callback waiting for the
lock, or done. -/
inductive TimerPhase where
  | pending
  | firing
  | over
  deriving DecidableEq

/-- The manager with everything it has started.  Handles are positions in the
lists of processes and timers. -/
structure TunnelManager where
  state : TunnelState
  process : Option ℕ
  reconnectTimer : Option ℕ
  processes : List TunnelProcess
  timers : List TimerPhase
  deriving DecidableEq

/-- How the launch of a process ends: `pre_start` raises, the launch raises,
or the process runs. -/
inductive Launch where
  | preStartRaises
  | raises
  | runs
  deriving DecidableEq

namespace TunnelManager

def init : TunnelManager := ⟨{}, none, none, [], []⟩

/-- `timer.cancel()`: a callback that waits for the lock already still runs. -/
def cancelTimer (manager : TunnelManager) (timer : ℕ) : TunnelManager :=
  match manager.timers[timer]? with
  | some .pending => { manager with timers := manager.timers.set timer .over }
  | _ => manager

def cancelReconnect (manager : TunnelManager) : TunnelManager :=
  match manager.reconnectTimer with
  | some timer => { manager.cancelTimer timer with reconnectTimer := none }
  | none => manager

def endProcess (manager : TunnelManager) (process : ℕ) : TunnelManager :=
  { manager with
    processes := manager.processes.modify process fun p =>
      { p with alive := false } }

def terminateProcess (manager : TunnelManager) : TunnelManager :=
  match manager.process with
  | some process => { manager.endProcess process with process := none }
  | none => manager

def scheduleRetry (manager : TunnelManager) : TunnelManager :=
  let manager := manager.cancelReconnect
  { manager with
    reconnectTimer := some manager.timers.length
    timers := manager.timers ++ [.pending] }

/-- The effects that start no process.  A notification changes nothing. -/
def applyPlainEffect (manager : TunnelManager) : TunnelEffect → TunnelManager
  | .cancelRetryTimer => manager.cancelReconnect
  | .terminateProcess => manager.terminateProcess
  | .scheduleRetryTimer _ _ _ => manager.scheduleRetry
  | _ => manager

def dispatchExited (manager : TunnelManager) (data : List (Text × Datum)) :
    TunnelManager :=
  let answer := processExited manager.state data
  answer.2.foldl applyPlainEffect { manager with state := answer.1 }

def fail (manager : TunnelManager) (error : Text) : TunnelManager :=
  { manager with
    state := { manager.state with
      status := .failed, lastError := .str error, desiredRunning := false } }

variable (providers : Providers)

/-- The effect that starts a process.  `AsyncProcess.start` turns every error
of the launch into one of its own, also that of a missing binary. -/
def startProcess (launch : Launch) (manager : TunnelManager) (provider : Text) : TunnelManager :=
  match providers.info provider with
  | none => manager.fail ("unknown tunnel provider: ".toList ++ provider)
  | some info =>
    if info.hasPreStart && launch = .preStartRaises then
      manager.fail (provider ++ " pre_start failed".toList)
    else if launch = .raises then
      { manager with process := none }.dispatchExited [("rc".toList, .int 1), ("auth_error".toList,
          .str ("failed to start ".toList ++ provider ++ " tunnel".toList))]
    else
      { manager with
        process := some manager.processes.length
        processes := manager.processes ++ [⟨provider, true, false⟩] }

def applyEffect (launch : Launch) (manager : TunnelManager) : TunnelEffect → TunnelManager
  | .startProcess _ provider _ => startProcess providers launch manager provider
  | effect => manager.applyPlainEffect effect

variable (lower : Text → Text)

def dispatch (launch : Launch) (manager : TunnelManager) (event : TunnelEvent) : TunnelManager :=
  let answer := nextState lower manager.state event
  answer.2.foldl (applyEffect providers launch) { manager with state := answer.1 }

def filled : Option Text → Option Text
  | some [] => none
  | text => text

/-- The event that a line of a process brings, in `_on_line`. -/
def lineEvent (manager : TunnelManager) (provider line : Text) : Option TunnelEvent :=
  if (filled manager.state.publicUrl).isSome then none
  else
    match filled (providers.detectAuthError provider line) with
    | some authError =>
      some ⟨.processExited, [("rc".toList, .int 1), ("auth_error".toList, .str authError)]⟩
    | none =>
      match filled ((providers.info provider).bind fun info => info.parseLine line) with
      | some url => some ⟨.urlAcquired, [("url".toList, .str url)]⟩
      | none => none

def onLine (manager : TunnelManager) (provider line : Text) :
    TunnelManager :=
  match lineEvent providers manager provider line with
  | some event => dispatch providers lower .runs manager event
  | none => manager

def onExit (manager : TunnelManager) (rc : ℤ) : TunnelManager :=
  { manager with process := none }.dispatchExited [("rc".toList, .int rc)]

def onRetryTimerExpired (launch : Launch) (manager : TunnelManager) :
    TunnelManager :=
  dispatch providers lower launch { manager with reconnectTimer := none } ⟨.retryTimerExpired, []⟩

def isRunning (manager : TunnelManager) : Bool :=
  match manager.process.bind (manager.processes[·]?) with
  | some process => process.alive
  | none => false

def startProvider (provider : Text) : Text :=
  lower (strip (if provider.isEmpty then "cloudflare".toList else provider))

/-- `start`, with what it returns; `binaryAvailable` is the answer of
`binary_available`. -/
def start (manager : TunnelManager) (launch : Launch) (binaryAvailable : Bool) (port : ℤ)
    (provider providerToken : Text) (maxRetries : ℤ) : Bool × TunnelManager :=
  let provider := startProvider lower provider
  let token := strip providerToken
  match providers.info provider with
  | none => (false, manager.fail ("unknown tunnel provider: ".toList ++ provider))
  | some info =>
    if manager.isRunning && manager.state.port = port && manager.state.provider = provider &&
        manager.state.providerToken = token then
      (true,
        if (filled manager.state.publicUrl).isSome then
          { manager with state := { manager.state with lastError := .none } }
        else manager)
    else if !binaryAvailable then
      (false, manager.fail (info.binary ++ " binary not found on PATH".toList))
    else
      let manager := dispatch providers lower launch manager
        ⟨.startRequested, [("port".toList, .int port), ("provider".toList, .str provider),
          ("provider_token".toList, .str token),
          ("max_retries".toList, .int maxRetries)]⟩
      (match manager.state.lastError with
        | .str error =>
          !(["not found on PATH", "failed to start", "pre_start failed"].any fun part =>
              decide (part.toList <:+: error))
        | _ => true,
        manager)

def stop (manager : TunnelManager) : TunnelManager :=
  dispatch providers lower .runs manager ⟨.stopRequested, []⟩

/-- What can happen: a call, a line of output, the end of a process and the
delivery of its exit, and the same two for a timer. -/
inductive Action where
  | start (launch : Launch) (binaryAvailable : Bool) (port : ℤ)
      (provider providerToken : Text) (maxRetries : ℤ)
  | stop
  | line (process : ℕ) (text : Text)
  | ends (process : ℕ)
  | exitCallback (process : ℕ) (rc : ℤ)
  | timerFires (timer : ℕ)
  | timerCallback (timer : ℕ) (launch : Launch)
  deriving DecidableEq

def step (manager : TunnelManager) : Action → TunnelManager
  | .start launch binaryAvailable port provider providerToken maxRetries =>
    (start providers lower manager launch binaryAvailable port provider providerToken maxRetries).2
  | .stop => stop providers lower manager
  | .line process text =>
    match manager.processes[process]? with
    | some p => onLine providers lower manager p.provider text
    | none => manager
  | .ends process => manager.endProcess process
  | .exitCallback process rc =>
    match manager.processes[process]? with
    | some p =>
      if p.alive || p.exitDelivered then manager
      else
        onExit { manager with
          processes := manager.processes.set process
            { p with exitDelivered := true } } rc
    | none => manager
  | .timerFires timer =>
    match manager.timers[timer]? with
    | some .pending => { manager with timers := manager.timers.set timer .firing }
    | _ => manager
  | .timerCallback timer launch =>
    match manager.timers[timer]? with
    | some .firing =>
      onRetryTimerExpired providers lower launch
        { manager with timers := manager.timers.set timer .over }
    | _ => manager

def run (manager : TunnelManager) (actions : List Action) : TunnelManager :=
  actions.foldl (step providers lower) manager

end TunnelManager

end WriterAgent.Mcp
