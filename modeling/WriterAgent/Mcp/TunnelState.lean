import Mathlib.Data.Rat.Floor
import WriterAgent.Foundations.DecimalDigit
import WriterAgent.Foundations.Dict

/-!
# The state machine of the public tunnel

`plugin/mcp/tunnel_state.py`: `next_state` answers an event with the next
state of the tunnel and the effects to run.  Delays are exact numbers.
-/

namespace WriterAgent.Mcp

open PyText

/-- A value in the data of an event.  An object of another type is seen
through its text and its truth value only. -/
inductive Datum where
  | none
  | bool (b : Bool)
  | int (n : ℤ)
  | str (s : Text)
  | other (text : Text) (truthy : Bool)
  deriving DecidableEq, Repr

namespace Datum

def truthy : Datum → Bool
  | .none => false
  | .bool b => b
  | .int n => decide (n ≠ 0)
  | .str s => !s.isEmpty
  | .other _ truthy => truthy

/-- `str(value)`. -/
def toText : Datum → Text
  | .none => "None".toList
  | .bool b => (if b then "True" else "False").toList
  | .int n => (toString n).toList
  | .str s => s
  | .other text _ => text

end Datum

def underscoredDigits (afterDigit : Bool) : Text → Bool
  | [] => afterDigit
  | c :: rest =>
    if c = '_' then afterDigit && underscoredDigits false rest
    else isDecimal c && underscoredDigits true rest

/-- The longest number `int` reads. -/
def maxStrDigits : ℕ := 4300

def unsignedInt (s : Text) : Option ℤ :=
  let digits := s.filter (· != '_')
  if underscoredDigits false s && digits.length ≤ maxStrDigits then
    some (decimalsValue digits)
  else none

/-- `int(text)` of a text without white space around it. -/
def intOfText : Text → Option ℤ
  | '-' :: s => (unsignedInt s).map (- ·)
  | '+' :: s => unsignedInt s
  | s => unsignedInt s

def roundHalfEven (q : ℚ) : ℤ :=
  let below := ⌊q⌋
  if q - below < 1 / 2 then below
  else if 1 / 2 < q - below then below + 1
  else if below % 2 = 0 then below
  else below + 1

/-- `"%.1f" % q`. -/
def fixedOne (q : ℚ) : Text :=
  let tenths := (roundHalfEven (q * 10)).natAbs
  (if q < 0 then "-" else "").toList ++ (toString (tenths / 10)).toList ++
    '.' :: (toString (tenths % 10)).toList

def intText (n : ℤ) : Text := (toString n).toList

inductive TunnelStatus where
  | stopped
  | starting
  | connected
  | reconnecting
  | failed
  deriving DecidableEq, Repr

structure TunnelState where
  status : TunnelStatus := .stopped
  port : ℤ := 18765
  provider : Text := "cloudflare".toList
  providerToken : Text := []
  publicUrl : Option Text := none
  retryCount : ℕ := 0
  maxRetries : ℤ := 5
  backoffInitial : ℚ := 1
  backoffFactor : ℚ := 2
  maxBackoff : ℚ := 30
  lastError : Datum := .none
  desiredRunning : Bool := false
  deriving DecidableEq

inductive TunnelEventKind where
  | startRequested
  | processStarted
  | urlAcquired
  | processExited
  | retryTimerExpired
  | stopRequested
  deriving DecidableEq, Repr

structure TunnelEvent where
  kind : TunnelEventKind
  data : List (Text × Datum) := []
  deriving DecidableEq, Repr

/-- `data.get(key, fallback)`. -/
def eventGet (data : List (Text × Datum)) (key : String) (fallback : Datum) :
    Datum :=
  (PyDict.lookup key.toList data).getD fallback

inductive TunnelEffect where
  | startProcess (port : ℤ) (provider providerToken : Text)
  | terminateProcess
  | scheduleRetryTimer (delaySeconds : ℚ) (attempt : ℕ) (maxRetries : ℤ)
  | cancelRetryTimer
  | notifyUrlAcquired (provider url : Text)
  deriving DecidableEq

def computeBackoffDelay (retryCount : ℕ) (initial factor maxBackoff : ℚ) : ℚ :=
  min (initial * factor ^ retryCount) maxBackoff

def eventInt (data : List (Text × Datum)) (key : String) (fallback : ℤ) : ℤ :=
  match eventGet data key (.int fallback) with
  | .bool b => if b then 1 else 0
  | .int n => n
  | .str raw =>
    let text := strip raw
    if text.isEmpty then fallback else (intOfText text).getD fallback
  | _ => fallback

def reconnectMessage (hadUrl : Bool) (rc : Datum) (attempt : ℕ)
    (maxRetries : ℤ) (delay : ℚ) : Text :=
  (if hadUrl then "connection dropped (code " else
    "tunnel process exited (code ").toList ++ rc.toText ++
    "); reconnecting (attempt ".toList ++ intText attempt ++
    '/' :: intText maxRetries ++ " in ".toList ++ fixedOne delay ++
    "s)…".toList

def exhaustedMessage (maxRetries : ℤ) (rc : Datum) : Text :=
  "tunnel disconnected; failed to reconnect after ".toList ++
    intText maxRetries ++ " attempts (code ".toList ++ rc.toText ++
    ")".toList

def processExited (state : TunnelState) (data : List (Text × Datum)) :
    TunnelState × List TunnelEffect :=
  let rc := eventGet data "rc" (.int 0)
  let authError := eventGet data "auth_error" .none
  let hadUrl := state.publicUrl.isSome
  if !state.desiredRunning then
    ({ state with status := .stopped, publicUrl := none }, [])
  else if authError.truthy then
    ({ state with
        status := .failed, publicUrl := none, lastError := authError,
        desiredRunning := false }, [])
  else if (state.retryCount : ℤ) < state.maxRetries then
    let attempt := state.retryCount + 1
    let delay := computeBackoffDelay state.retryCount state.backoffInitial
      state.backoffFactor state.maxBackoff
    ({ state with
        status := .reconnecting, publicUrl := none, retryCount := attempt,
        lastError :=
          .str (reconnectMessage hadUrl rc attempt state.maxRetries delay) },
      [.scheduleRetryTimer delay attempt state.maxRetries])
  else
    ({ state with
        status := .failed, publicUrl := none,
        lastError := .str (exhaustedMessage state.maxRetries rc),
        desiredRunning := false }, [])

/-- `next_state`; `lower` is `str.lower`. -/
def nextState (lower : Text → Text) (state : TunnelState)
    (event : TunnelEvent) : TunnelState × List TunnelEffect :=
  match event.kind with
  | .startRequested =>
    let port := eventInt event.data "port" state.port
    let provider := lower (strip (eventGet event.data "provider" (.str state.provider)).toText)
    let providerToken :=
      (eventGet event.data "provider_token" (.str [])).toText
    let maxRetries := eventInt event.data "max_retries" state.maxRetries
    ({ state with
        status := .starting, port := port, provider := provider,
        providerToken := providerToken, publicUrl := none, retryCount := 0,
        maxRetries := maxRetries, lastError := .none,
        desiredRunning := true },
      [.cancelRetryTimer, .terminateProcess, .startProcess port provider providerToken])
  | .processStarted => ({ state with status := .starting }, [])
  | .urlAcquired =>
    let url := strip (eventGet event.data "url" (.str [])).toText
    ({ state with
        status := .connected, publicUrl := some url, retryCount := 0,
        lastError := .none },
      [.notifyUrlAcquired state.provider url])
  | .processExited => processExited state event.data
  | .retryTimerExpired =>
    if !state.desiredRunning then ({ state with status := .stopped }, [])
    else
      ({ state with status := .starting },
        [.startProcess state.port state.provider state.providerToken])
  | .stopRequested =>
    ({ state with
        status := .stopped, publicUrl := none, retryCount := 0,
        lastError := .none, desiredRunning := false },
      [.cancelRetryTimer, .terminateProcess])

def runEvents (lower : Text → Text) (state : TunnelState) :
    List TunnelEvent → TunnelState × List TunnelEffect
  | [] => (state, [])
  | event :: rest =>
    let answer := nextState lower state event
    let later := runEvents lower answer.1 rest
    (later.1, answer.2 ++ later.2)

end WriterAgent.Mcp
