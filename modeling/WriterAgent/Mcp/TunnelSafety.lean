import WriterAgent.Mcp.TunnelManager

/-!
# Safety of the tunnel manager

Callbacks carry no mark of the process or timer they belong to.  As long as
none of them is taken for that of another one, the manager holds the handle of
everything it has running.
-/

namespace WriterAgent.Mcp.TunnelManager

open PyText List

/-- The manager holds the handle of every live process and pending timer. -/
structure Owned (manager : TunnelManager) : Prop where
  process : ∀ (i : ℕ) (p : TunnelProcess), manager.processes[i]? = some p →
    p.alive = true → manager.process = some i
  timer : ∀ i : ℕ, manager.timers[i]? = some TimerPhase.pending → manager.reconnectTimer = some i

/-- Nothing runs and no handle is held. -/
structure Idle (manager : TunnelManager) : Prop where
  noneAlive : ∀ (i : ℕ) (p : TunnelProcess), manager.processes[i]? = some p → p.alive = false
  process : manager.process = none
  nonePending : ∀ i : ℕ, manager.timers[i]? ≠ some TimerPhase.pending
  reconnectTimer : manager.reconnectTimer = none

variable {manager : TunnelManager} {p : TunnelProcess} {provider line : Text} {action : Action}

theorem Idle.owned (idle : Idle manager) : Owned manager where
  process i p there alive := by
    rw [idle.noneAlive i p there] at alive
    cases alive
  timer i pending := absurd pending (idle.nonePending i)

/-- What holds between the callbacks of a run that mixes none of them up. -/
structure Inv (manager : TunnelManager) : Prop extends Owned manager where
  waiting : manager.reconnectTimer ≠ none → manager.state.status = .reconnecting
  reconnecting : manager.state.status = .reconnecting →
    manager.state.desiredRunning = true ∧ manager.process = none

theorem Inv.noTimer (inv : Inv manager) (notReconnecting : manager.state.status ≠ .reconnecting) :
    manager.reconnectTimer = none := by
  by_contra some
  exact notReconnecting (inv.waiting some)

theorem Inv.nonePending (inv : Inv manager)
    (notReconnecting : manager.state.status ≠ .reconnecting) (i : ℕ) :
    manager.timers[i]? ≠ some TimerPhase.pending := by
  intro pending
  have held := inv.timer i pending
  rw [inv.noTimer notReconnecting] at held
  cases held

theorem Idle.inv (idle : Idle manager) (notReconnecting : manager.state.status ≠ .reconnecting) :
    Inv manager where
  toOwned := idle.owned
  waiting some := absurd idle.reconnectTimer some
  reconnecting is := absurd is notReconnecting

theorem cancelTimer_get {timer i : ℕ} (there : (manager.cancelTimer timer).timers[i]? =
      some TimerPhase.pending) :
    i ≠ timer ∧ manager.timers[i]? = some TimerPhase.pending := by
  unfold cancelTimer at there
  split at there
  · rename_i waits
    rw [List.getElem?_set] at there
    by_cases same : timer = i
    · split at there <;> simp at there
    · rw [if_neg same] at there
      exact ⟨Ne.symm same, there⟩
  · rename_i waits
    refine ⟨?_, there⟩
    rintro rfl
    exact waits there

theorem cancelTimer_frame (manager : TunnelManager) (timer : ℕ) :
    let next := manager.cancelTimer timer
    next.timers.length = manager.timers.length ∧
      next.state = manager.state ∧ next.process = manager.process ∧
      next.processes = manager.processes := by
  unfold cancelTimer
  split
  · exact ⟨length_set, rfl, rfl, rfl⟩
  · exact ⟨rfl, rfl, rfl, rfl⟩

theorem cancelReconnect_spec (owned : Owned manager) :
    let next := manager.cancelReconnect
    (∀ i : ℕ, next.timers[i]? ≠ some TimerPhase.pending) ∧ next.reconnectTimer = none ∧
      next.timers.length = manager.timers.length ∧
      next.state = manager.state ∧ next.process = manager.process ∧
      next.processes = manager.processes := by
  cases held : manager.reconnectTimer with
  | none =>
    have unchanged : manager.cancelReconnect = manager := by simp [cancelReconnect, held]
    rw [unchanged]
    refine ⟨fun i pending => ?_, held, rfl, rfl, rfl, rfl⟩
    have other := owned.timer i pending
    rw [held] at other
    cases other
  | some timer =>
    have cancelled : manager.cancelReconnect =
        { manager.cancelTimer timer with reconnectTimer := none } := by
      simp [cancelReconnect, held]
    rw [cancelled]
    refine ⟨fun i pending => ?_, rfl, cancelTimer_frame manager timer⟩
    obtain ⟨different, waits⟩ := cancelTimer_get pending
    have isHeld := owned.timer i waits
    rw [held] at isHeld
    exact different (Option.some.inj isHeld).symm

theorem endProcess_get {process i : ℕ}
    (there : (manager.endProcess process).processes[i]? = some p) :
    (i = process → p.alive = false) ∧ (p.alive = true → manager.processes[i]? = some p) := by
  simp only [endProcess, List.getElem?_modify, Option.map_eq_map, Option.map_eq_some_iff] at there
  obtain ⟨before, was, rfl⟩ := there
  by_cases same : process = i
  · simp [same]
  · simp only [same, if_false]
    exact ⟨fun eq => absurd eq.symm same, fun _ => was⟩

theorem terminateProcess_spec (owned : Owned manager) :
    let next := manager.terminateProcess
    (∀ (i : ℕ) (p : TunnelProcess), next.processes[i]? = some p → p.alive = false) ∧
      next.process = none ∧
      next.processes.length = manager.processes.length ∧
      next.state = manager.state ∧
      next.reconnectTimer = manager.reconnectTimer ∧
      next.timers = manager.timers := by
  cases held : manager.process with
  | none =>
    have unchanged : manager.terminateProcess = manager := by simp [terminateProcess, held]
    rw [unchanged]
    refine ⟨fun i p there => ?_, held, rfl, rfl, rfl, rfl⟩
    by_contra alive
    have other := owned.process i p there (by simpa using alive)
    rw [held] at other
    cases other
  | some process =>
    have ended : manager.terminateProcess =
        { manager.endProcess process with process := none } := by
      simp [terminateProcess, held]
    rw [ended]
    refine ⟨fun i p there => ?_, rfl, length_modify _ _ _, rfl, rfl,
      rfl⟩
    obtain ⟨itself, others⟩ := endProcess_get there
    by_contra alive
    have isAlive : p.alive = true := by simpa using alive
    have isHeld := owned.process i p (others isAlive) isAlive
    rw [held] at isHeld
    exact alive (itself (Option.some.inj isHeld).symm)

theorem idle_of_owned {manager : TunnelManager} (owned : Owned manager) :
    let next := manager.cancelReconnect.terminateProcess
    Idle next ∧ next.state = manager.state ∧ next.processes.length = manager.processes.length ∧
      next.timers.length = manager.timers.length := by
  obtain ⟨nonePending, noTimer, sameLength, sameState, sameProcess,
    sameProcesses⟩ := cancelReconnect_spec owned
  have stillOwned : Owned manager.cancelReconnect := by
    refine ⟨fun i p there alive => ?_, fun i pending =>
      absurd pending (nonePending i)⟩
    rw [sameProcess]
    rw [sameProcesses] at there
    exact owned.process i p there alive
  obtain ⟨noneAlive, noProcess, sameCount, keptState, keptTimer,
    keptTimers⟩ := terminateProcess_spec stillOwned
  refine ⟨⟨noneAlive, noProcess, ?_, keptTimer.trans noTimer⟩, keptState.trans sameState, ?_, ?_⟩
  · rw [keptTimers]
    exact nonePending
  · rw [sameCount, sameProcesses]
  · rw [keptTimers, sameLength]

theorem dispatchExited_cases (manager : TunnelManager) (data : List (Text × Datum)) :
    (manager.state.desiredRunning = false ∧ manager.dispatchExited data =
        { manager with state := { manager.state with
            status := .stopped, publicUrl := none } }) ∨
    (manager.state.desiredRunning = true ∧ ∃ error, manager.dispatchExited data =
        { manager with state := { manager.state with
            status := .failed, publicUrl := none, lastError := error,
            desiredRunning := false } }) ∨
    (manager.state.desiredRunning = true ∧ (eventGet data "auth_error" .none).truthy = false ∧
      ∃ state : TunnelState, state.status = .reconnecting ∧ state.desiredRunning = true ∧
        manager.dispatchExited data =
          { manager with state := state }.scheduleRetry) := by
  cases desired : manager.state.desiredRunning with
  | false => simp [dispatchExited, processExited, desired]
  | true =>
    cases auth : (eventGet data "auth_error" .none).truthy with
    | true => simp [dispatchExited, processExited, desired, auth]
    | false =>
      by_cases remain : (manager.state.retryCount : ℤ) < manager.state.maxRetries
      · refine .inr (.inr ⟨rfl, rfl, (processExited manager.state data).1, ?_, ?_, ?_⟩)
        · simp [processExited, desired, auth, remain]
        · simp [processExited, desired, auth, remain]
        · simp [dispatchExited, processExited, desired, auth, remain, applyPlainEffect]
      · simp [dispatchExited, processExited, desired, auth, remain]

theorem scheduleRetry_inv (owned : Owned manager) (noneAlive : ∀ (i : ℕ) (p : TunnelProcess),
      manager.processes[i]? = some p → p.alive = false)
    (noProcess : manager.process = none)
    (isReconnecting : manager.state.status = .reconnecting)
    (desired : manager.state.desiredRunning = true) :
    Inv manager.scheduleRetry := by
  obtain ⟨nonePending, _, _, sameState, sameProcess, sameProcesses⟩ :=
    cancelReconnect_spec owned
  refine ⟨⟨fun i p there alive => ?_, fun i pending => ?_⟩, fun _ => ?_, fun _ => ⟨?_, ?_⟩⟩
  · have there' : manager.processes[i]? = some p := sameProcesses ▸ there
    rw [noneAlive i p there'] at alive
    cases alive
  · have pending' : (manager.cancelReconnect.timers ++
        [TimerPhase.pending])[i]? = some TimerPhase.pending := pending
    rw [List.getElem?_append] at pending'
    split at pending'
    · exact absurd pending' (nonePending i)
    · rename_i beyond
      have inRange := (List.getElem?_eq_some_iff.mp pending').1
      have last : i = manager.cancelReconnect.timers.length := by
        simp only [length_singleton] at inRange
        omega
      rw [last]
      rfl
  · exact (congrArg TunnelState.status sameState).trans isReconnecting
  · exact (congrArg TunnelState.desiredRunning sameState).trans desired
  · exact sameProcess.trans noProcess

theorem fail_inv (inv : Inv manager)
    (notReconnecting : manager.state.status ≠ .reconnecting) (error : Text) :
    Inv (manager.fail error) where
  process := inv.process
  timer := inv.timer
  waiting some := absurd (inv.noTimer notReconnecting) some
  reconnecting is := nomatch is

theorem dispatchExited_auth (inv : Inv manager)
    (notReconnecting : manager.state.status ≠ .reconnecting) {data : List (Text × Datum)}
    (auth : (eventGet data "auth_error" .none).truthy = true) :
    Inv (manager.dispatchExited data) := by
  have noTimer := inv.noTimer notReconnecting
  rcases dispatchExited_cases manager data with ⟨_, same⟩ | ⟨_, _, same⟩ | ⟨_, drop, _⟩
  · rw [same]
    exact ⟨⟨inv.process, inv.timer⟩, fun some => absurd noTimer some, fun is => nomatch is⟩
  · rw [same]
    exact ⟨⟨inv.process, inv.timer⟩, fun some => absurd noTimer some, fun is => nomatch is⟩
  · rw [auth] at drop
    cases drop

variable (providers : Providers)

theorem startProcess_inv (launch : Launch) (idle : Idle manager) (notReconnecting :
      manager.state.status ≠ .reconnecting) (provider : Text) :
    Inv (startProcess providers launch manager provider) := by
  have inv := idle.inv notReconnecting
  unfold startProcess
  split
  · exact fail_inv inv notReconnecting _
  · split
    · exact fail_inv inv notReconnecting _
    · split
      · apply dispatchExited_auth
        · refine ⟨⟨fun i p there alive => ?_, inv.timer⟩, inv.waiting,
            fun is => absurd is notReconnecting⟩
          rw [idle.noneAlive i p there] at alive
          cases alive
        · exact notReconnecting
        · rfl
      · refine ⟨⟨fun i p there alive => ?_, inv.timer⟩, inv.waiting,
          fun is => absurd is notReconnecting⟩
        rw [List.getElem?_append] at there
        split at there
        · rw [idle.noneAlive i p there] at alive
          cases alive
        · rename_i beyond
          have inRange := (List.getElem?_eq_some_iff.mp there).1
          have last : i = manager.processes.length := by
            simp only [length_singleton] at inRange
            omega
          rw [last]

variable (lower : Text → Text)

def refused (binaryAvailable : Bool) (provider : Text) : Bool :=
  (providers.info (startProvider lower provider)).isNone || !binaryAvailable

/-- The steps that take no callback for that of another process or timer: no
start is refused while a retry waits; a line that brings an event comes
neither while a retry waits nor, with a URL, while the tunnel is stopped; an
exit is that of the process whose handle is held, or nothing is desired and
nothing runs; a retry is that of the timer held, or nothing is desired. -/
def Allowed (manager : TunnelManager) : Action → Prop
  | .start _ binaryAvailable _ provider _ _ =>
    manager.state.status = .reconnecting → refused providers lower binaryAvailable provider = false
  | .line process text => ∀ p event, manager.processes[process]? = some p →
      lineEvent providers manager p.provider text = some event →
      manager.state.status ≠ .reconnecting ∧
        (event.kind = .urlAcquired → manager.state.status ≠ .stopped)
  | .exitCallback process _ => manager.process ≠ some process →
      manager.state.desiredRunning = false ∧ manager.isRunning = false
  | .timerCallback timer _ => manager.state.desiredRunning = true →
      manager.reconnectTimer = some timer
  | _ => True

theorem lineEvent_cases {event : TunnelEvent}
    (brings : lineEvent providers manager provider line = some event) :
    (event.kind = .processExited ∧ (eventGet event.data "auth_error" .none).truthy = true) ∨
    event.kind = .urlAcquired := by
  unfold lineEvent at brings
  split_ifs at brings
  split at brings
  · rename_i authError isError
    cases brings
    refine .inl ⟨rfl, ?_⟩
    cases authError with
    | nil =>
      cases found : providers.detectAuthError provider line with
      | none => simp [found, filled] at isError
      | some text =>
        cases text with
        | nil | cons c rest => simp [found, filled] at isError
    | cons c rest => rfl
  · split at brings
    · cases brings
      exact .inr rfl
    · cases brings

theorem dispatch_start_inv (launch : Launch) (inv : Inv manager) (data : List (Text × Datum)) :
    Inv (dispatch providers lower launch manager ⟨.startRequested, data⟩) := by
  obtain ⟨idle, sameState, _⟩ := @idle_of_owned { manager with
      state := (nextState lower manager.state ⟨.startRequested, data⟩).1 }
    ⟨inv.process, inv.timer⟩
  apply startProcess_inv providers launch idle
  rw [sameState]
  exact fun is => nomatch is

theorem start_inv (inv : Inv manager) (launch : Launch) (binaryAvailable : Bool)
    (port : ℤ) (provider providerToken : Text) (maxRetries : ℤ)
    (allowed : manager.state.status = .reconnecting →
      refused providers lower binaryAvailable provider = false) :
    Inv (start providers lower manager launch binaryAvailable port provider
      providerToken maxRetries).2 := by
  unfold start
  dsimp only
  split
  · rename_i unknown
    apply fail_inv inv
    intro is
    have accepted := allowed is
    simp [refused, unknown] at accepted
  · split
    · split
      · exact ⟨⟨inv.process, inv.timer⟩, inv.waiting, inv.reconnecting⟩
      · exact inv
    · split
      · rename_i missing
        apply fail_inv inv
        intro is
        have accepted := allowed is
        simp only [refused, Bool.or_eq_false_iff] at accepted
        rw [accepted.2] at missing
        cases missing
      · exact dispatch_start_inv providers lower launch inv _

structure Stopped (manager : TunnelManager) : Prop extends Inv manager where
  status : manager.state.status = .stopped
  publicUrl : manager.state.publicUrl = none
  notDesired : manager.state.desiredRunning = false
  noProcess : manager.process = none

theorem stop_stopped (inv : Inv manager) : Stopped (stop providers lower manager) ∧
      (stop providers lower manager).processes.length = manager.processes.length ∧
      (stop providers lower manager).timers.length =
        manager.timers.length := by
  obtain ⟨idle, sameState, processes, timers⟩ := @idle_of_owned { manager with
      state := (nextState lower manager.state ⟨.stopRequested, []⟩).1 }
    ⟨inv.process, inv.timer⟩
  have isStop : stop providers lower manager = { manager with state :=
        (nextState lower manager.state ⟨.stopRequested, []⟩).1
          }.cancelReconnect.terminateProcess := rfl
  rw [isStop]
  refine ⟨⟨idle.inv ?_, ?_, ?_, ?_, idle.process⟩, processes, timers⟩
  · rw [sameState]
    exact fun is => nomatch is
  · rw [sameState]
    rfl
  · rw [sameState]
    rfl
  · rw [sameState]
    rfl

theorem dispatch_exited (launch : Launch) (manager : TunnelManager) (data : List (Text × Datum)) :
    dispatch providers lower launch manager ⟨.processExited, data⟩ =
      manager.dispatchExited data := by
  have plain : ∀ effect ∈ (processExited manager.state data).2,
      ∀ manager, applyEffect providers launch manager effect = applyPlainEffect manager effect := by
    intro effect member manager
    cases effect with
    | startProcess port provider providerToken =>
      unfold processExited at member
      dsimp only at member
      split_ifs at member
      · cases member
      · cases member
      · rw [mem_singleton] at member
        cases member
      · cases member
    | terminateProcess | scheduleRetryTimer | cancelRetryTimer
    | notifyUrlAcquired => rfl
  exact foldl_ext _ _ _ fun manager effect member =>
    plain effect member manager

theorem dispatch_url_inv (inv : Inv manager)
    (notReconnecting : manager.state.status ≠ .reconnecting) (data : List (Text × Datum)) :
    Inv (dispatch providers lower .runs manager ⟨.urlAcquired, data⟩) :=
  ⟨⟨inv.process, inv.timer⟩, fun some => absurd (inv.noTimer notReconnecting) some,
    fun is => nomatch is⟩

theorem onLine_inv (inv : Inv manager) (allowed : ∀ event,
      lineEvent providers manager provider line = some event →
      manager.state.status ≠ .reconnecting) :
    Inv (onLine providers lower manager provider line) := by
  unfold onLine
  split
  · rename_i event brings
    have notReconnecting := allowed event brings
    obtain ⟨kind, data⟩ := event
    rcases lineEvent_cases providers brings with ⟨isExit, auth⟩ | isUrl
    · cases isExit
      rw [dispatch_exited]
      exact dispatchExited_auth inv notReconnecting auth
    · cases isUrl
      exact dispatch_url_inv providers lower inv notReconnecting data
  · exact inv

theorem endProcess_inv (inv : Inv manager) (process : ℕ) : Inv (manager.endProcess process) where
  process i p there alive :=
    inv.process i p ((endProcess_get there).2 alive) alive
  timer := inv.timer
  waiting := inv.waiting
  reconnecting := inv.reconnecting

theorem exitCallback_noneAlive (inv : Inv manager) {process : ℕ}
    (there : manager.processes[process]? = some p) (ended : p.alive = false)
    (allowed : manager.process ≠ some process →
      manager.state.desiredRunning = false ∧ manager.isRunning = false) (i : ℕ)
    (q : TunnelProcess) (isThere : manager.processes[i]? = some q) :
    q.alive = false := by
  by_contra alive
  have isAlive : q.alive = true := by simpa using alive
  have held := inv.process i q isThere isAlive
  by_cases itself : i = process
  · subst itself
    rw [there] at isThere
    cases isThere
    rw [ended] at isAlive
    cases isAlive
  · have other : manager.process ≠ some process := by
      rw [held]
      exact fun same => itself (Option.some.inj same)
    have notRunning := (allowed other).2
    simp [isRunning, held, isThere, isAlive] at notRunning

theorem onExit_inv (inv : Inv manager) {process : ℕ} (noneAlive : ∀ (i : ℕ) (q : TunnelProcess),
      manager.processes[i]? = some q → q.alive = false)
    (allowed : manager.process ≠ some process → manager.state.desiredRunning = false) (rc : ℤ) :
    Inv (manager.onExit rc) := by
  have notReconnecting : manager.state.status ≠ .reconnecting := by
    intro is
    obtain ⟨desired, noProcess⟩ := inv.reconnecting is
    have notDesired := allowed (by rw [noProcess]; exact nofun)
    rw [desired] at notDesired
    cases notDesired
  have noTimer := inv.noTimer notReconnecting
  have owned : Owned { manager with process := none } := by
    refine ⟨fun i p there alive => ?_, inv.timer⟩
    rw [noneAlive i p there] at alive
    cases alive
  unfold onExit
  rcases dispatchExited_cases { manager with process := none }
      [("rc".toList, .int rc)] with ⟨_, same⟩ | ⟨_, error, same⟩ |
    ⟨_, _, state, isReconnecting, desired, same⟩
  · rw [same]
    exact ⟨⟨owned.process, owned.timer⟩, fun some => absurd noTimer some, fun is => nomatch is⟩
  · rw [same]
    exact ⟨⟨owned.process, owned.timer⟩, fun some => absurd noTimer some, fun is => nomatch is⟩
  · rw [same]
    exact scheduleRetry_inv ⟨owned.process, owned.timer⟩ noneAlive rfl isReconnecting desired

theorem set_get_pending {timers : List TimerPhase} {timer i : ℕ} {phase : TimerPhase}
    (moved : phase ≠ .pending) (there : (timers.set timer phase)[i]? = some TimerPhase.pending) :
    i ≠ timer ∧ timers[i]? = some TimerPhase.pending := by
  rw [List.getElem?_set] at there
  by_cases same : timer = i
  · rw [if_pos same] at there
    split_ifs at there
    exact absurd (Option.some.inj there) moved
  · rw [if_neg same] at there
    exact ⟨Ne.symm same, there⟩

theorem timerFires_inv (inv : Inv manager) (timer : ℕ) :
    Inv { manager with timers := manager.timers.set timer .firing } where
  process := inv.process
  timer i pending := inv.timer i (set_get_pending (by decide) pending).2
  waiting := inv.waiting
  reconnecting := inv.reconnecting

theorem onRetryTimerExpired_undesired (launch : Launch) {manager : TunnelManager}
    (notDesired : manager.state.desiredRunning = false) :
    onRetryTimerExpired providers lower launch manager = { manager with
        reconnectTimer := none
        state := { manager.state with status := .stopped } } := by
  simp [onRetryTimerExpired, dispatch, nextState, notDesired]

theorem timerCallback_inv (inv : Inv manager) {timer : ℕ} (launch : Launch)
    (allowed : manager.state.desiredRunning = true → manager.reconnectTimer = some timer) :
    Inv (onRetryTimerExpired providers lower launch
      { manager with timers := manager.timers.set timer .over }) := by
  cases desired : manager.state.desiredRunning with
  | false =>
    have notReconnecting : manager.state.status ≠ .reconnecting := by
      intro is
      have wanted := (inv.reconnecting is).1
      rw [desired] at wanted
      cases wanted
    rw [@onRetryTimerExpired_undesired providers lower launch
      { manager with timers := manager.timers.set timer .over } desired]
    refine ⟨⟨inv.process, fun i pending => ?_⟩, fun some => absurd rfl some, fun is => nomatch is⟩
    exact absurd (set_get_pending (by decide) pending).2 (inv.nonePending notReconnecting i)
  | true =>
    have held := allowed desired
    have isReconnecting : manager.state.status = .reconnecting :=
      inv.waiting (by rw [held]; exact nofun)
    have noProcess := (inv.reconnecting isReconnecting).2
    have idle : Idle { manager with
        timers := manager.timers.set timer .over
        reconnectTimer := none
        state := { manager.state with status := .starting } } := by
      refine ⟨fun i p there => ?_, noProcess, fun i pending => ?_, rfl⟩
      · by_contra alive
        have other := inv.process i p there (by simpa using alive)
        rw [noProcess] at other
        cases other
      · obtain ⟨different, waits⟩ := set_get_pending (by decide) pending
        have isHeld := inv.timer i waits
        rw [held] at isHeld
        exact different (Option.some.inj isHeld).symm
    have starts : onRetryTimerExpired providers lower launch
        { manager with timers := manager.timers.set timer .over } =
        startProcess providers launch { manager with
          timers := manager.timers.set timer .over
          reconnectTimer := none
          state := { manager.state with status := .starting } }
          manager.state.provider := by
      simp [onRetryTimerExpired, dispatch, nextState, desired, applyEffect]
    rw [starts]
    exact startProcess_inv providers launch idle (fun is => nomatch is) _

/-- **Step.** Allowed steps keep the invariant. -/
theorem step_inv (inv : Inv manager) (allowed : Allowed providers lower manager action) :
    Inv (step providers lower manager action) := by
  cases action with
  | start launch binaryAvailable port provider providerToken maxRetries =>
    exact start_inv providers lower inv launch binaryAvailable port provider
      providerToken maxRetries allowed
  | stop => exact (stop_stopped providers lower inv).1.toInv
  | line process text =>
    simp only [step]
    split
    · rename_i p there
      exact onLine_inv providers lower inv fun event brings =>
        (allowed p event there brings).1
    · exact inv
  | ends process => exact endProcess_inv inv process
  | exitCallback process rc =>
    simp only [step]
    split
    · rename_i p there
      split
      · exact inv
      · rename_i delivered
        simp only [Bool.or_eq_true, not_or, Bool.not_eq_true] at delivered
        have none := exitCallback_noneAlive inv there delivered.1 allowed
        have noneStill : ∀ (i : ℕ) (q : TunnelProcess), (manager.processes.set process
              { p with exitDelivered := true })[i]? = some q →
            q.alive = false := by
          intro i q isThere
          rw [List.getElem?_set] at isThere
          split_ifs at isThere
          · cases isThere
            exact delivered.1
          · exact none i q isThere
        have invStill : Inv { manager with
            processes := manager.processes.set process
              { p with exitDelivered := true } } := by
          refine ⟨⟨fun i q isThere alive => ?_, inv.timer⟩, inv.waiting, inv.reconnecting⟩
          rw [noneStill i q isThere] at alive
          cases alive
        exact onExit_inv invStill noneStill (fun other => (allowed other).1) rc
    · exact inv
  | timerFires timer =>
    simp only [step]
    split
    · exact timerFires_inv inv timer
    · exact inv
  | timerCallback timer launch =>
    simp only [step]
    split
    · exact timerCallback_inv providers lower inv launch allowed
    · exact inv

structure NothingStarted (before after : TunnelManager) : Prop where
  processes : after.processes.length = before.processes.length
  timers : after.timers.length = before.timers.length

theorem NothingStarted.trans {first second third : TunnelManager}
    (early : NothingStarted first second)
    (late : NothingStarted second third) : NothingStarted first third :=
  ⟨late.processes.trans early.processes, late.timers.trans early.timers⟩

theorem dispatchExited_undesired {manager : TunnelManager}
    (notDesired : manager.state.desiredRunning = false) (data : List (Text × Datum)) :
    manager.dispatchExited data = { manager with state := { manager.state with
          status := .stopped, publicUrl := none } } := by
  simp [dispatchExited, processExited, notDesired]

theorem onExit_undesired {manager : TunnelManager}
    (notDesired : manager.state.desiredRunning = false) (rc : ℤ) :
    manager.onExit rc = { manager with
        process := none
        state := { manager.state with
          status := .stopped, publicUrl := none } } :=
  @dispatchExited_undesired { manager with process := none } notDesired _

def Action.isStart : Action → Bool
  | .start _ _ _ _ _ _ => true
  | _ => false

theorem stopped_step (stopped : Stopped manager) (notStart : action.isStart = false)
    (allowed : Allowed providers lower manager action) :
    Stopped (step providers lower manager action) ∧
      NothingStarted manager (step providers lower manager action) := by
  have inv := step_inv providers lower stopped.toInv allowed
  have same : NothingStarted manager manager := ⟨rfl, rfl⟩
  cases action with
  | start => cases notStart
  | stop =>
    obtain ⟨again, processes, timers⟩ :=
      stop_stopped providers lower stopped.toInv
    exact ⟨again, processes, timers⟩
  | line process text =>
    simp only [step] at inv ⊢
    split
    · rename_i p there
      unfold onLine
      split
      · rename_i event brings
        obtain ⟨kind, data⟩ := event
        rcases lineEvent_cases providers brings with ⟨isExit, _⟩ | isUrl
        · cases isExit
          simp only [there, onLine, brings] at inv
          rw [dispatch_exited, dispatchExited_undesired stopped.notDesired] at inv ⊢
          exact ⟨⟨inv, rfl, rfl, stopped.notDesired, stopped.noProcess⟩, rfl, rfl⟩
        · exact absurd stopped.status ((allowed p _ there brings).2 isUrl)
      · exact ⟨stopped, same⟩
    · exact ⟨stopped, same⟩
  | ends process =>
    exact ⟨⟨inv, stopped.status, stopped.publicUrl, stopped.notDesired,
      stopped.noProcess⟩, length_modify _ _ _, rfl⟩
  | exitCallback process rc =>
    simp only [step] at inv ⊢
    split
    · rename_i p there
      split
      · exact ⟨stopped, same⟩
      · rename_i delivered
        simp only [there, if_neg delivered] at inv
        rw [@onExit_undesired { manager with
          processes := manager.processes.set process
            { p with exitDelivered := true } }
          stopped.notDesired] at inv ⊢
        exact ⟨⟨inv, rfl, rfl, stopped.notDesired, rfl⟩, length_set, rfl⟩
    · exact ⟨stopped, same⟩
  | timerFires timer =>
    simp only [step] at inv ⊢
    split
    · rename_i pending
      simp only [pending] at inv
      exact ⟨⟨inv, stopped.status, stopped.publicUrl, stopped.notDesired,
        stopped.noProcess⟩, rfl, length_set⟩
    · exact ⟨stopped, same⟩
  | timerCallback timer launch =>
    simp only [step] at inv ⊢
    split
    · rename_i firing
      simp only [firing] at inv
      rw [@onRetryTimerExpired_undesired providers lower launch
        { manager with timers := manager.timers.set timer .over }
        stopped.notDesired] at inv ⊢
      exact ⟨⟨inv, rfl, stopped.publicUrl, stopped.notDesired, stopped.noProcess⟩, rfl, length_set⟩
    · exact ⟨stopped, same⟩

theorem stopped_run (stopped : Stopped manager) {actions : List Action}
    (noStart : ∀ action ∈ actions, action.isStart = false)
    (along : Along (step providers lower) (Allowed providers lower) manager actions) :
    Stopped (run providers lower manager actions) ∧
      NothingStarted manager (run providers lower manager actions) := by
  induction actions generalizing manager with
  | nil => exact ⟨stopped, rfl, rfl⟩
  | cons action rest ih =>
    obtain ⟨allowed, later⟩ := along
    obtain ⟨still, first⟩ := stopped_step providers lower stopped
      (noStart action mem_cons_self) allowed
    obtain ⟨atEnd, then_⟩ := ih still
      (fun action member => noStart action (mem_cons_of_mem _ member))
      later
    exact ⟨atEnd, first.trans then_⟩

/-- At most one process is alive, and a retry waits only while the tunnel is
reconnecting. -/
structure Safe (manager : TunnelManager) : Prop where
  oneAlive : (manager.processes.filter TunnelProcess.alive).length ≤ 1
  pendingReconnecting : TimerPhase.pending ∈ manager.timers → manager.state.status = .reconnecting

theorem length_filter_le_one {α : Type*} {keep : α → Bool} {items : List α}
    (unique : ∀ (i j : ℕ) (a b : α), items[i]? = some a → keep a = true →
      items[j]? = some b → keep b = true → i = j) :
    (items.filter keep).length ≤ 1 := by
  induction items with
  | nil => exact Nat.zero_le 1
  | cons a rest ih =>
    cases kept : keep a with
    | false =>
      rw [filter_cons_of_neg (by simp [kept])]
      apply ih
      intro i j a b iThere aKept jThere bKept
      have same := unique (i + 1) (j + 1) a b iThere aKept jThere bKept
      omega
    | true =>
      have none : rest.filter keep = [] := by
        rw [filter_eq_nil_iff]
        intro b member keptToo
        obtain ⟨j, jThere⟩ := mem_iff_getElem?.mp member
        have same := unique 0 (j + 1) a b rfl kept jThere keptToo
        omega
      rw [filter_cons_of_pos kept, none]
      exact Nat.le_refl 1

theorem Inv.safe (inv : Inv manager) : Safe manager where
  oneAlive := by
    apply length_filter_le_one
    intro i j p q iThere pAlive jThere qAlive
    have first := inv.process i p iThere pAlive
    rw [inv.process j q jThere qAlive] at first
    exact (Option.some.inj first).symm
  pendingReconnecting member := by
    obtain ⟨i, pending⟩ := mem_iff_getElem?.mp member
    apply inv.waiting
    rw [inv.timer i pending]
    exact nofun

theorem init_inv : Inv init :=
  Idle.inv ⟨fun _ _ there => (nomatch there), rfl, fun _ there =>
    (nomatch there), rfl⟩ (fun is => nomatch is)

/-- **Tunnel safety.** In the state a run of allowed steps ends in, and so in
every state it reaches, at most one process is alive and a retry waits only
while reconnecting; and since a stop without a later start the tunnel is
stopped, has no URL and has started nothing. -/
theorem run_safe {actions : List Action}
    (along : Along (step providers lower) (Allowed providers lower) init actions) :
    Safe (run providers lower init actions) ∧
      ∀ before between, actions = before ++ .stop :: between →
        (∀ action ∈ between, action.isStart = false) →
        (run providers lower init actions).state.status = .stopped ∧
          (run providers lower init actions).state.publicUrl = none ∧
          NothingStarted (run providers lower init (before ++ [.stop]))
            (run providers lower init actions) := by
  have keeps := fun manager action (inv : Inv manager)
      (allowed : Allowed providers lower manager action) =>
    step_inv providers lower inv allowed
  refine ⟨(along.foldl_invariant Inv keeps init_inv).safe, ?_⟩
  rintro before between rfl noStart
  obtain ⟨first, _, later⟩ := Along.append_iff.mp along
  have inv : Inv (run providers lower init before) :=
    first.foldl_invariant Inv keeps init_inv
  obtain ⟨stopped, _⟩ := stop_stopped providers lower inv
  obtain ⟨still, nothing⟩ :=
    stopped_run providers lower stopped noStart later
  have whole : run providers lower init (before ++ .stop :: between) =
      run providers lower (stop providers lower (run providers lower init before)) between := by
    simp [run, step]
  have atStop : run providers lower init (before ++ [.stop]) =
      stop providers lower (run providers lower init before) := by
    simp [run, step]
  rw [whole, atStop]
  exact ⟨still.status, still.publicUrl, nothing⟩

/-- The Cloudflare entry of the table, for lines that are a quick-tunnel
address and nothing else. -/
def cloudflareOnly : Providers where
  info provider :=
    if provider = "cloudflare".toList then
      some ⟨"cloudflared".toList, false, fun line =>
        if line = "https://a.trycloudflare.com".toList then some line
        else none⟩
    else none
  detectAuthError _ _ := none

abbrev startAt (port : ℤ) : Action :=
  .start .runs true port "cloudflare".toList [] 5

abbrev retryThenStop : List Action :=
  [startAt 8765, .ends 0, .exitCallback 0 1, .timerFires 0, .timerCallback 0 .runs, .stop]

theorem run_safe_retryThenStop : Safe (run cloudflareOnly (fun s => s) init retryThenStop) ∧
      (run cloudflareOnly (fun s => s) init retryThenStop).state.status =
        .stopped := by
  have whole := @run_safe cloudflareOnly (fun s => s) retryThenStop
    ⟨fun is => (nomatch is), trivial, fun other => absurd rfl other, trivial,
      fun _ => rfl, trivial, trivial⟩
  exact ⟨whole.1, (whole.2 (retryThenStop.take 5) [] rfl nofun).1⟩

/-- Callbacks taken for those of another process: the exit of a terminated
process lets a second one live; a late line brings back a stopped tunnel; a
late line leaves a retry behind. -/
theorem run_mixed_up : ((run cloudflareOnly (fun s => s) init [startAt 8765, startAt 8766,
        .exitCallback 0 1, .timerFires 0,
        .timerCallback 0 .runs]).processes.filter TunnelProcess.alive).length = 2 ∧
    (run cloudflareOnly (fun s => s) init [startAt 8765, .stop,
        .line 0 "https://a.trycloudflare.com".toList]).state.status =
      .connected ∧
    (run cloudflareOnly (fun s => s) init [startAt 8765, .ends 0, .exitCallback 0 1,
        .line 0 "https://a.trycloudflare.com".toList]).timers = [.pending] ∧
    (run cloudflareOnly (fun s => s) init [startAt 8765, .ends 0, .exitCallback 0 1,
        .line 0 "https://a.trycloudflare.com".toList]).state.status =
      .connected := by
  decide +kernel

end WriterAgent.Mcp.TunnelManager
