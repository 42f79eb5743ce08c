import WriterAgent.Mcp.DocumentGates

/-!
# Safety of the document gates

A gate is in the hands of the thread whose gated body runs behind it, so no two
bodies run for one document.
-/

namespace WriterAgent.Mcp

open PyText Option

variable {worker : McpWorker} {call : PreparedMcpCall} {thread : McpThread}
  {gated other : McpServer} {action : McpAction} {stage : WorkerStage}

namespace McpServer

variable {server next : McpServer}

theorem body_congr (workers : other.workers = server.workers)
    (main : other.main = server.main) : other.body = server.body := by
  funext thread
  cases thread with
  | main => exact congrArg MainStage.call? main
  | worker id => rw [body, body, workers]

theorem body_setStage {id : ℕ} (found : server.workers[id]? = some worker) (stage : WorkerStage) :
    (server.setStage id stage).body = Function.update server.body (.worker id) stage.call? := by
  funext thread
  cases thread with
  | main => rfl
  | worker other =>
    by_cases same : other = id
    · subst same
      simp [body, setStage, found]
    · have different : McpThread.worker other ≠ .worker id :=
        fun equal => same (McpThread.worker.inj equal)
      rw [Function.update_of_ne different]
      simp [body, setStage, Ne.symm same]

theorem body_setStage_eq {id : ℕ} (found : server.workers[id]? = some worker)
    (same : stage.call? = worker.stage.call?) :
    (server.setStage id stage).body = server.body := by
  rw [body_setStage found, same]
  apply Function.update_eq_self_iff.mpr
  rw [body, found]
  rfl

theorem body_setMain (stage : MainStage) : { server with main := stage }.body =
      Function.update server.body .main stage.call? := by
  funext thread
  cases thread with
  | main | worker => rfl

theorem body_setMain_eq {stage : MainStage} (same : stage.call? = server.main.call?) :
    { server with main := stage }.body = server.body := by
  rw [body_setMain, same]
  exact Function.update_eq_self _ _

theorem onWorker_elim {id : ℕ}
    {f : McpServer → ℕ → McpWorker → Option McpServer} {holds : Prop}
    (taken : server.onWorker id f = some next)
    (step : ∀ {worker}, server.workers[id]? = some worker →
      f server id worker = some next → holds) : holds := by
  obtain ⟨worker, found, answer⟩ := bind_eq_some_iff.mp taken
  exact step found answer

/-- What a step does to bodies and gates: nothing, a thread enters a body, or it
leaves one. -/
inductive BodyEffect (server next : McpServer) : Prop where
  | frame : next.body = server.body → next.docGates = server.docGates → BodyEffect server next
  | enter (thread : McpThread) (call : PreparedMcpCall) (gated : McpServer) :
      server.body thread = none →
      server.enterGate thread call = some gated →
      next.body = Function.update server.body thread (some call) →
      next.docGates = gated.docGates → BodyEffect server next
  | leave (thread : McpThread) (call : PreparedMcpCall) : server.body thread = some call →
      next.body = Function.update server.body thread none →
      next.docGates = (server.leaveGate call).docGates →
      BodyEffect server next

theorem enterGate_workers (entered : server.enterGate thread call = some gated) :
    gated.workers = server.workers ∧ gated.main = server.main ∧ gated.items = server.items := by
  rw [enterGate] at entered
  split_ifs at entered
  · cases entered
    exact ⟨rfl, rfl, rfl⟩
  · cases entered
    exact ⟨rfl, rfl, rfl⟩

theorem leaveGate_workers (server : McpServer) (call : PreparedMcpCall) :
    (server.leaveGate call).workers = server.workers ∧
      (server.leaveGate call).main = server.main := by
  rw [leaveGate]
  split <;> exact ⟨rfl, rfl⟩

theorem afterPrepare_call? (worker : McpWorker) (work : MainItem) :
    (afterPrepare worker work).call? = none := by
  rw [afterPrepare]
  split
  · split <;> rfl
  · rfl

section Workers

variable {id : ℕ} {worker : McpWorker} (found : server.workers[id]? = some worker)

include found

theorem body_worker : server.body (.worker id) = worker.stage.call? := by
  rw [body, found]
  rfl

theorem of_stage (same : stage.call? = worker.stage.call?)
    (workers : next.workers = (server.setStage id stage).workers)
    (main : next.main = server.main) (docGates : next.docGates = server.docGates) :
    BodyEffect server next ∧ next.main = server.main := by
  refine ⟨.frame ?_ docGates, main⟩
  rw [← body_setStage_eq found same]
  exact body_congr workers main

theorem submit_effect (taken : server.submit id worker = some next) :
    BodyEffect server next ∧ next.main = server.main := by
  rw [submit] at taken
  split at taken
  · rename_i stage
    split_ifs at taken
    cases taken
    exact of_stage found (by rw [stage]; rfl) rfl rfl rfl
  · rename_i stage
    cases taken
    exact of_stage found (by rw [stage]; rfl) rfl rfl rfl
  · rename_i stage
    cases taken
    exact of_stage found (by rw [stage]; rfl) rfl rfl rfl
  · cases taken

theorem acquireSemaphore_effect (taken : server.acquireSemaphore id worker = some next) :
    BodyEffect server next ∧ next.main = server.main := by
  rw [acquireSemaphore] at taken
  split_ifs at taken with allowed
  cases taken
  exact of_stage found (by rw [allowed.2.1]; rfl) rfl rfl rfl

theorem semaphoreTimeout_effect (taken : server.semaphoreTimeout id worker = some next) :
    BodyEffect server next ∧ next.main = server.main := by
  rw [semaphoreTimeout] at taken
  split_ifs at taken with allowed
  cases taken
  exact of_stage found (by rw [allowed.2]; rfl) rfl rfl rfl

theorem timeOut_effect (taken : server.timeOut id worker = some next) :
    BodyEffect server next ∧ next.main = server.main := by
  rw [timeOut] at taken
  split at taken
  · rename_i stage
    split_ifs at taken
    cases taken
    rw [releaseSemaphore]
    split <;> exact of_stage found (by rw [stage]; rfl) rfl rfl rfl
  · rename_i stage
    split_ifs at taken
    cases taken
    exact of_stage found (by rw [stage]; rfl) rfl rfl rfl
  · cases taken

theorem wake_effect (taken : server.wake id worker = some next) :
    BodyEffect server next ∧ next.main = server.main := by
  rw [wake] at taken
  split at taken
  · rename_i stage
    obtain ⟨work, -, woken⟩ := bind_eq_some_iff.mp taken
    split_ifs at woken
    cases woken
    have same : (afterPrepare worker work).call? = worker.stage.call? := by
      rw [afterPrepare_call?, stage]
      rfl
    rw [releaseSemaphore]
    split <;> exact of_stage found same rfl rfl rfl
  · rename_i stage
    split_ifs at taken
    cases taken
    exact of_stage found (by rw [stage]; rfl) rfl rfl rfl
  · cases taken

theorem acquireGate_effect (taken : server.acquireGate id worker = some next) :
    BodyEffect server next ∧ next.main = server.main := by
  rw [acquireGate] at taken
  split at taken
  · rename_i call stage
    obtain ⟨gated, entered, rfl⟩ := map_eq_some_iff.mp taken
    obtain ⟨workers, main, -⟩ := enterGate_workers entered
    refine ⟨.enter (.worker id) call gated ?_ entered ?_ rfl, main⟩
    · rw [body_worker found, stage]
      rfl
    · rw [body_setStage (by rw [workers]; exact found), body_congr workers main]
      rfl
  · cases taken

theorem gateTimeout_effect (taken : server.gateTimeout id worker = some next) :
    BodyEffect server next ∧ next.main = server.main := by
  rw [gateTimeout] at taken
  split at taken
  · rename_i stage
    split_ifs at taken
    cases taken
    exact of_stage found (by rw [stage]; rfl) rfl rfl rfl
  · cases taken

theorem finishBody_effect (taken : server.finishBody id worker = some next) :
    BodyEffect server next ∧ next.main = server.main := by
  rw [finishBody] at taken
  split at taken
  · rename_i call stage
    cases taken
    obtain ⟨workers, main⟩ := leaveGate_workers server call
    refine ⟨.leave (.worker id) call ?_ ?_ rfl, main⟩
    · rw [body_worker found, stage]
      rfl
    · rw [body_setStage (by rw [workers]; exact found), body_congr workers main]
      rfl
  · cases taken

end Workers

theorem body_finishItem (item : ℕ) (prepared : Option (Except PrepareError PreparedMcpCall)) :
    (server.finishItem item prepared).body = Function.update server.body .main none :=
  body_setMain .idle

theorem BodyEffect.of_main (outside : server.main.call? = none)
    (stays : next.main.call? = none) (workers : next.workers = server.workers)
    (docGates : next.docGates = server.docGates) : BodyEffect server next := by
  apply BodyEffect.frame _ docGates
  have same : next.main.call? = server.main.call? := stays.trans outside.symm
  rw [← body_setMain_eq same]
  exact body_congr workers rfl

theorem takeItem_effect (taken : server.takeItem = some next) : BodyEffect server next := by
  rw [takeItem] at taken
  split at taken
  · rename_i idle _
    obtain ⟨work, -, rfl⟩ := map_eq_some_iff.mp taken
    have outside : server.main.call? = none := by
      rw [idle]
      rfl
    split
    · exact .of_main outside outside rfl rfl
    · exact .of_main outside rfl rfl rfl
  · cases taken

theorem prepare_effect {tool : Option McpTool} {document : Option McpDocument}
    (taken : server.prepare tool document = some next) :
    BodyEffect server next := by
  rw [prepare] at taken
  split at taken
  · rename_i item started
    obtain ⟨work, -, ofWork⟩ := bind_eq_some_iff.mp taken
    obtain ⟨worker, -, prepared⟩ := bind_eq_some_iff.mp ofWork
    have outside : server.main.call? = none := by
      rw [started]
      rfl
    cases job : work.job with
    | prepare =>
      rw [job] at prepared
      cases prepared
      exact .of_main outside rfl rfl rfl
    | tool =>
      rw [job] at prepared
      cases prepared
      cases prepareMcpExecution worker.documentUrl tool document with
      | error => exact .of_main outside rfl rfl rfl
      | ok call =>
        rw [enterTool]
        split
        · exact .of_main outside rfl rfl rfl
        · rename_i ungated
          refine .enter .main call server outside ?_ (body_setMain _) rfl
          rw [enterGate, if_pos (by simpa using ungated)]
    | call =>
      rw [job] at prepared
      cases prepared
  · cases taken

theorem runCall_effect (taken : server.runCall = some next) : BodyEffect server next := by
  rw [runCall] at taken
  split at taken
  · rename_i started
    obtain ⟨work, -, ran⟩ := bind_eq_some_iff.mp taken
    split_ifs at ran
    cases ran
    exact .of_main (by rw [started]; rfl) rfl rfl rfl
  · cases taken

theorem enterMain_effect {item : ℕ} (outside : server.main.call? = none)
    (entered : server.enterGate .main call = some gated) :
    BodyEffect server { gated with main := .body item call } := by
  obtain ⟨workers, main, -⟩ := enterGate_workers entered
  refine .enter .main call gated outside entered ?_ rfl
  rw [body_setMain, body_congr workers main]
  rfl

theorem mainAcquireGate_effect (taken : server.mainAcquireGate = some next) :
    BodyEffect server next := by
  rw [mainAcquireGate] at taken
  split at taken
  · rename_i item call atGate
    have outside : server.main.call? = none := by
      rw [atGate]
      rfl
    split at taken
    · rename_i gated entered
      cases taken
      exact enterMain_effect outside entered
    · cases taken
      exact .of_main outside rfl rfl rfl
  · cases taken

theorem mainGateFreed_effect (taken : server.mainGateFreed = some next) :
    BodyEffect server next := by
  rw [mainGateFreed] at taken
  split at taken
  · rename_i item call waiting
    obtain ⟨gated, entered, rfl⟩ := map_eq_some_iff.mp taken
    exact enterMain_effect (by rw [waiting]; rfl) entered
  · cases taken

theorem mainGateTimeout_effect (taken : server.mainGateTimeout = some next) :
    BodyEffect server next := by
  rw [mainGateTimeout] at taken
  split at taken
  · rename_i waiting
    cases taken
    exact .of_main (by rw [waiting]; rfl) rfl rfl rfl
  · cases taken

theorem mainFinishBody_effect (taken : server.mainFinishBody = some next) :
    BodyEffect server next := by
  rw [mainFinishBody] at taken
  split at taken
  · rename_i item call inBody
    cases taken
    obtain ⟨workers, main⟩ := leaveGate_workers server call
    refine .leave .main call ?_ ?_ rfl
    · rw [body, inBody]
      rfl
    · rw [body_finishItem, body_congr workers main]
  · cases taken

theorem body_request (longRunning : Bool) (documentUrl : Option Text) (id : ℕ) : ({ server with
      workers := server.workers ++ [⟨longRunning, documentUrl, .arriving⟩] } : McpServer).body
      (.worker id) = server.body (.worker id) := by
  simp only [body]
  by_cases old : id < server.workers.length
  · rw [List.getElem?_append_left old]
  · rw [not_lt] at old
    rw [List.getElem?_append_right old, List.getElem?_eq_none old]
    cases id - server.workers.length with
    | zero => rfl
    | succ => rfl

/-- **Steps.** A step enters a body, leaves one or does nothing to them. -/
theorem step_effect (taken : server.step action = some next) : BodyEffect server next := by
  cases action with
  | request longRunning documentUrl =>
    cases taken
    refine .frame ?_ rfl
    funext thread
    cases thread with
    | main => rfl
    | worker id => exact body_request longRunning documentUrl id
  | acquireSemaphore id =>
    exact onWorker_elim taken fun found ran => (acquireSemaphore_effect found ran).1
  | semaphoreTimeout id =>
    exact onWorker_elim taken fun found ran => (semaphoreTimeout_effect found ran).1
  | submit id => exact onWorker_elim taken fun found ran => (submit_effect found ran).1
  | timeOut id => exact onWorker_elim taken fun found ran => (timeOut_effect found ran).1
  | wake id => exact onWorker_elim taken fun found ran => (wake_effect found ran).1
  | acquireGate id => exact onWorker_elim taken fun found ran => (acquireGate_effect found ran).1
  | gateTimeout id => exact onWorker_elim taken fun found ran => (gateTimeout_effect found ran).1
  | finishBody id => exact onWorker_elim taken fun found ran => (finishBody_effect found ran).1
  | takeItem => exact takeItem_effect taken
  | prepare tool document => exact prepare_effect taken
  | runCall => exact runCall_effect taken
  | mainAcquireGate => exact mainAcquireGate_effect taken
  | mainGateFreed => exact mainGateFreed_effect taken
  | mainGateTimeout => exact mainGateTimeout_effect taken
  | mainFinishBody => exact mainFinishBody_effect taken

theorem holder_congr (docGates : other.docGates = server.docGates)
    (docKey : Text) : other.holder docKey = server.holder docKey := by
  rw [holder, holder, docGates]

theorem enterGate_holder (entered : server.enterGate thread call = some gated) (docKey : Text) :
    gated.holder docKey =
      if call.needsGate = true ∧ docKey = call.docKey then some thread
      else server.holder docKey := by
  rw [enterGate] at entered
  split_ifs at entered
  · rename_i ungated
    cases entered
    rw [if_neg]
    rintro ⟨gated, -⟩
    rw [gated] at ungated
    cases ungated
  · rename_i isGated _
    cases entered
    have needsGate : call.needsGate = true := by simpa using isGated
    simp only [holder, PyDict.get?_set, needsGate, true_and]
    split <;> rfl

theorem enterGate_free (entered : server.enterGate thread call = some gated)
    (needsGate : call.needsGate = true) : server.holder call.docKey = none := by
  rw [enterGate, needsGate, Bool.not_true, if_neg Bool.false_ne_true] at entered
  split at entered
  · cases entered
  · next free => exact not_isSome_iff_eq_none.mp free

theorem leaveGate_holder (call : PreparedMcpCall) (docKey : Text) :
    (server.leaveGate call).holder docKey =
      if call.needsGate = true ∧ docKey = call.docKey then none
      else server.holder docKey := by
  rw [leaveGate]
  split
  · rename_i ungated
    rw [if_neg]
    rintro ⟨gated, -⟩
    rw [gated] at ungated
    cases ungated
  · rename_i isGated
    have needsGate : call.needsGate = true := by simpa using isGated
    simp only [holder, PyDict.get?_set, needsGate, true_and]
    split <;> rfl

/-- A gate is in the hands of the thread whose gated body runs behind it. -/
def Held (server : McpServer) : Prop :=
  ∀ docKey thread, server.holder docKey = some thread ↔
    ∃ call, server.body thread = some call ∧ call.needsGate = true ∧ call.docKey = docKey

theorem Held.exclusive (held : server.Held) : server.Exclusive := by
  intro first second call other inFirst inSecond isGated otherGated same
  have byFirst := (held call.docKey first).mpr ⟨call, inFirst, isGated, rfl⟩
  have bySecond :=
    (held call.docKey second).mpr ⟨other, inSecond, otherGated, same.symm⟩
  rw [byFirst] at bySecond
  exact some.inj bySecond

theorem init_held : init.Held := by
  intro docKey thread
  constructor
  · intro held
    cases held
  · rintro ⟨call, running, -⟩
    cases thread with
    | main | worker => cases running

/-- **Gates.** Every step keeps the gates with the bodies behind them. -/
theorem Held.step (held : server.Held) (effect : BodyEffect server next) :
    next.Held := by
  intro docKey thread
  cases effect with
  | frame bodies docGates =>
    rw [holder_congr docGates, bodies]
    exact held docKey thread
  | enter entering call gated outside entered bodies docGates =>
    rw [holder_congr docGates, enterGate_holder entered, bodies]
    by_cases own : thread = entering
    · subst own
      rw [Function.update_self]
      split
      · next takes => 
          exact ⟨fun _ => ⟨call, rfl, takes.1, takes.2.symm⟩, fun _ => rfl⟩
      · rename_i other
        constructor
        · intro holds
          obtain ⟨earlier, running, -⟩ := (held docKey thread).mp holds
          rw [outside] at running
          cases running
        · rintro ⟨_, ⟨rfl⟩, isGated, isKey⟩
          exact absurd ⟨isGated, isKey.symm⟩ other
    · rw [Function.update_of_ne own]
      split
      · rename_i takes
        constructor
        · intro holds
          exact absurd (some.inj holds).symm own
        · rintro ⟨earlier, running, isGated, isKey⟩
          have holds := (held docKey thread).mpr ⟨earlier, running, isGated, isKey⟩
          rw [takes.2, enterGate_free entered takes.1] at holds
          cases holds
      · exact held docKey thread
  | leave leaving call inside bodies docGates =>
    rw [holder_congr docGates, leaveGate_holder, bodies]
    by_cases own : thread = leaving
    · subst own
      rw [Function.update_self]
      split
      · simp
      · rename_i other
        constructor
        · intro holds
          obtain ⟨running, isRunning, isGated, isKey⟩ :=
            (held docKey thread).mp holds
          rw [inside] at isRunning
          cases isRunning
          exact absurd ⟨isGated, isKey.symm⟩ other
        · rintro ⟨_, ⟨⟩, -⟩
    · rw [Function.update_of_ne own]
      split
      · rename_i frees
        constructor
        · intro holds
          cases holds
        · rintro ⟨earlier, running, isGated, isKey⟩
          exact absurd (held.exclusive thread leaving earlier call running
            inside isGated frees.1 (isKey.trans frees.2)) own
      · exact held docKey thread

theorem held_of_reaches {condition : McpServer → McpAction → Prop} {run : List McpAction}
    (reaches : Reaches step condition init run server) : server.Held := by
  apply Reaches.invariant Held _ init_held reaches
  intro state action next held _ taken
  exact held.step (step_effect taken)

end McpServer

def MainStage.atGate? : MainStage → Option PreparedMcpCall
  | .atGate _ call => some call
  | _ => none

theorem MainStage.atGate?_eq_some {stage : MainStage} (isAtGate : stage.atGate? = some call) :
    ∃ item, stage = .atGate item call := by
  cases stage with
  | atGate item own =>
    cases isAtGate
    exact ⟨item, rfl⟩
  | idle | started | waitingGate | body => cases isAtGate

namespace McpServer

variable {server next : McpServer}

/-- A fast tool that needs the gate of its document finds it free. -/
def FindsFree (server : McpServer) (action : McpAction) : Prop :=
  action = .mainAcquireGate → ∀ call ∈ server.main.atGate?,
    call.needsGate = true → server.holder call.docKey = none

instance (server : McpServer) (action : McpAction) : Decidable (server.FindsFree action) :=
  inferInstanceAs (Decidable (_ → ∀ call ∈ server.main.atGate?, _ → _))

def Unblocked (server : McpServer) : Prop :=
  ∀ item call, server.main ≠ .waitingGate item call

theorem enterGate_eq_none (blocked : server.enterGate thread call = none) :
    call.needsGate = true ∧ ∃ other, server.holder call.docKey = some other := by
  rw [enterGate] at blocked
  split_ifs at blocked with isGated isHeld
  exact ⟨by simpa using isGated, isSome_iff_exists.mp isHeld⟩

theorem enterTool_main {item : ℕ} {prepared : Except PrepareError PreparedMcpCall} {blocked : ℕ} :
    (server.enterTool item prepared).main ≠ .waitingGate blocked call := by
  cases prepared with
  | error => exact nofun
  | ok own =>
    rw [enterTool]
    split <;> exact nofun

theorem step_waitingGate {item : ℕ} (taken : server.step action = some next)
    (waiting : next.main = .waitingGate item call) :
    server.main = .waitingGate item call ∨
      action = .mainAcquireGate ∧ server.main = .atGate item call ∧ call.needsGate = true ∧
          ∃ other, server.holder call.docKey = some other := by
  cases action with
  | request longRunning documentUrl =>
    cases taken
    exact .inl waiting
  | acquireSemaphore id =>
    exact .inl (onWorker_elim taken
      (fun found ran => (acquireSemaphore_effect found ran).2) ▸ waiting)
  | semaphoreTimeout id =>
    exact .inl (onWorker_elim taken
      (fun found ran => (semaphoreTimeout_effect found ran).2) ▸ waiting)
  | submit id =>
    exact .inl (onWorker_elim taken (fun found ran => (submit_effect found ran).2) ▸ waiting)
  | timeOut id =>
    exact .inl (onWorker_elim taken (fun found ran => (timeOut_effect found ran).2) ▸ waiting)
  | wake id =>
    exact .inl (onWorker_elim taken (fun found ran => (wake_effect found ran).2) ▸ waiting)
  | acquireGate id =>
    exact .inl (onWorker_elim taken (fun found ran => (acquireGate_effect found ran).2) ▸ waiting)
  | gateTimeout id =>
    exact .inl (onWorker_elim taken (fun found ran => (gateTimeout_effect found ran).2) ▸ waiting)
  | finishBody id =>
    exact .inl (onWorker_elim taken (fun found ran => (finishBody_effect found ran).2) ▸ waiting)
  | takeItem =>
    simp only [step, takeItem] at taken
    split at taken
    · obtain ⟨work, -, rfl⟩ := map_eq_some_iff.mp taken
      split_ifs at waiting
      exact .inl waiting
    · cases taken
  | prepare tool document =>
    simp only [step, prepare] at taken
    split at taken
    · obtain ⟨work, -, ofWork⟩ := bind_eq_some_iff.mp taken
      obtain ⟨worker, -, prepared⟩ := bind_eq_some_iff.mp ofWork
      split at prepared
      · cases prepared
        cases waiting
      · cases prepared
        exact absurd waiting enterTool_main
      · cases prepared
    · cases taken
  | runCall =>
    simp only [step, runCall] at taken
    split at taken
    · obtain ⟨work, -, ran⟩ := bind_eq_some_iff.mp taken
      split_ifs at ran
      cases ran
      cases waiting
    · cases taken
  | mainAcquireGate =>
    simp only [step, mainAcquireGate] at taken
    split at taken
    · rename_i atGate
      split at taken
      · cases taken
        cases waiting
      · rename_i blocked
        cases taken
        cases waiting
        exact .inr ⟨rfl, atGate, enterGate_eq_none blocked⟩
    · cases taken
  | mainGateFreed =>
    simp only [step, mainGateFreed] at taken
    split at taken
    · obtain ⟨gated, -, rfl⟩ := map_eq_some_iff.mp taken
      cases waiting
    · cases taken
  | mainGateTimeout =>
    simp only [step, mainGateTimeout] at taken
    split at taken
    · cases taken
      cases waiting
    · cases taken
  | mainFinishBody =>
    simp only [step, mainFinishBody] at taken
    split at taken
    · cases taken
      cases waiting
    · cases taken

theorem Unblocked.step (unblocked : server.Unblocked) (findsFree : server.FindsFree action)
    (taken : server.step action = some next) : next.Unblocked := by
  intro item call waiting
  rcases step_waitingGate taken waiting with
    already | ⟨isAcquire, atGate, needsGate, other, held⟩
  · exact unblocked item call already
  · have isAtGate : call ∈ server.main.atGate? := by
      rw [atGate]
      rfl
    rw [findsFree isAcquire call isAtGate needsGate] at held
    cases held

theorem submit_awaits {id : ℕ} (found : server.workers[id]? = some worker)
    (inBody : worker.stage = .body call) :
    ∃ next, server.step (.submit id) = some next ∧ next.main = server.main ∧
      next.docGates = server.docGates ∧ next.AwaitsMain id := by
  refine ⟨server.enqueueWork id .call (.calling call), ?_, rfl, rfl, ?_⟩
  · rw [step, onWorker, found]
    simp only [bind_some, submit, inBody]
  · refine ⟨{ worker with stage := .calling call server.items.length }, ?_,
      call, server.items.length,
      ⟨id, .call, false, false, false, none⟩, rfl, ?_, rfl⟩
    · simp [enqueueWork, setStage, found]
    · simp [enqueueWork]

theorem exists_awaits {id : ℕ} {call : PreparedMcpCall}
    (running : server.body (.worker id) = some call) :
    ∃ run final, Reaches step (fun _ _ => True) server run final ∧
      final.main = server.main ∧ final.docGates = server.docGates ∧ final.AwaitsMain id := by
  obtain ⟨worker, found, isCall⟩ := bind_eq_some_iff.mp running
  cases stage : worker.stage with
  | body own =>
    obtain ⟨next, taken, main, docGates, awaits⟩ := submit_awaits found stage
    exact ⟨[.submit id], next, ⟨trivial, next, taken, rfl⟩, main, docGates, awaits⟩
  | calling own item =>
    -- the call before it ends with its result, or with a timeout
    have back : ∃ action between, server.step action = some between ∧
        between.main = server.main ∧ between.docGates = server.docGates ∧
          ∃ other, between.workers[id]? = some other ∧ other.stage = .body own := by
      by_cases isSet : server.eventIsSet item = true
      · refine ⟨.wake id, server.setStage id (.body own), ?_, rfl, rfl,
          { worker with stage := .body own }, ?_, rfl⟩
        · rw [step, onWorker, found]
          simp only [bind_some, wake, stage, isSet, if_true]
        · simp [setStage, found]
      · refine ⟨.timeOut id, (server.giveUp item).setStage id (.body own), ?_, rfl, rfl,
          { worker with stage := .body own }, ?_, rfl⟩
        · rw [step, onWorker, found]
          simp only [bind_some, timeOut, stage, isSet, if_false, Bool.false_eq_true]
        · simp [setStage, giveUp, modifyItem, found]
    obtain ⟨action, between, first, main, docGates, other, isOther, inBody⟩ :=
      back
    obtain ⟨next, taken, nextMain, nextGates, awaits⟩ :=
      submit_awaits isOther inBody
    exact ⟨[action, .submit id], next, ⟨trivial, between, first, trivial, next, taken, rfl⟩,
      nextMain.trans main, nextGates.trans docGates, awaits⟩
  | arriving | holdingSemaphore | waiting item | acquiring own | answered =>
    rw [stage] at isCall
    cases isCall

theorem exists_deadlocked (held : server.Held) (taken : server.step action = some next)
    (findsHeld : ¬ server.FindsFree action) :
    ∃ run final, Reaches step (fun _ _ => True) next run final ∧
      final.Deadlocked := by
  simp only [FindsFree, not_forall] at findsHeld
  obtain ⟨rfl, call, isAtGate, needsGate, isHeld⟩ := findsHeld
  obtain ⟨item, atGate⟩ := MainStage.atGate?_eq_some isAtGate
  obtain ⟨thread, isHolder⟩ := Option.ne_none_iff_exists'.mp isHeld
  obtain ⟨own, running, isGated, isKey⟩ :=
    (held call.docKey thread).mp isHolder
  have isNext : next = { server with main := .waitingGate item call } := by
    simp only [step, mainAcquireGate, atGate] at taken
    split at taken
    · rename_i gated entered
      rw [enterGate_free entered needsGate] at isHolder
      cases isHolder
    · cases taken
      rfl
  subst isNext
  cases thread with
  | main =>
    rw [body, atGate] at running
    cases running
  | worker id =>
    obtain ⟨run, final, reaches, main, docGates, awaits⟩ :=
      @exists_awaits { server with main := .waitingGate item call } id own running
    refine ⟨run, final, reaches, item, call, id, main, ?_, awaits⟩
    rw [holder_congr docGates]
    exact isHolder

theorem Unblocked.not_deadlocked (unblocked : server.Unblocked) : ¬ server.Deadlocked := by
  rintro ⟨item, call, -, waiting, -⟩
  exact unblocked item call waiting

/-- **Gates.** In every run the bodies of gated tools exclude each other.  No
run in which the fast tools find their gates free comes to a deadlock, and
behind every fast tool that finds its gate held there is a run that does. -/
theorem gates_exclusive_and_live (run : List McpAction) :
    (∀ final, Reaches step (fun _ _ => True) init run final → final.Exclusive) ∧
      (∀ final, Reaches step FindsFree init run final → ¬ final.Deadlocked) ∧
      ∀ state, Reaches step (fun _ _ => True) init run state →
        ∀ action next, state.step action = some next → ¬ state.FindsFree action →
            ∃ more final, Reaches step (fun _ _ => True) next more final ∧
              final.Deadlocked := by
  refine ⟨fun final reaches => (held_of_reaches reaches).exclusive, fun final reaches => ?_,
    fun state reaches action next taken findsHeld =>
      exists_deadlocked (held_of_reaches reaches) taken findsHeld⟩
  apply Unblocked.not_deadlocked
  apply Reaches.invariant Unblocked _ _ reaches
  · intro state action next unblocked findsFree taken
    exact unblocked.step findsFree taken
  · intro item call waiting
    cases waiting

def openDocument : McpDocument := ⟨[.text ['7']], none⟩

def editTool : McpTool := ⟨true, some true, true⟩

def editCall : PreparedMcpCall := ⟨uidKey ['7'], true⟩

/-- A long-running tool takes the gate of the document, and a fast tool comes
to the same gate. -/
def meetingRun : List McpAction :=
  [.request true none, .submit 0, .takeItem,
    .prepare (some editTool) (some openDocument), .wake 0, .acquireGate 0,
    .request false none, .acquireSemaphore 1, .submit 1, .takeItem,
    .prepare (some editTool) (some openDocument)]

/-- The work items of `meetingRun`. -/
def meetingItems : List MainItem :=
  [⟨0, .prepare, false, true, true, some (.ok editCall)⟩, ⟨1, .tool, false, true, false, none⟩]

def meeting : McpServer where
  workers := [⟨true, none, .body editCall⟩, ⟨false, none, .waiting 1⟩]
  items := meetingItems
  workQueue := []
  main := .atGate 1 editCall
  semaphore := 0
  docGates := .set .empty editCall.docKey (some (.worker 0))

theorem gates_exclusive_and_live_meeting : meeting.Exclusive ∧ ¬ meeting.Deadlocked ∧
      ∃ more final, Reaches step (fun _ _ => True)
          { meeting with main := .waitingGate 1 editCall } more final ∧
        final.Deadlocked := by
  obtain ⟨exclusive, live, blocked⟩ := gates_exclusive_and_live meetingRun
  exact ⟨exclusive meeting (.of_follow (by decide)), live meeting (.of_follow (by decide)),
    blocked meeting (.of_follow (by decide)) .mainAcquireGate _ rfl (by decide)⟩

/-- The body of the long-running tool calls the main thread, which waits for
its gate. -/
theorem not_gates_live : ¬ ∀ (run : List McpAction) final,
      Reaches step (fun _ _ => True) init run final → final.Exclusive ∧ ¬ final.Deadlocked := by
  intro always
  have reaches : Reaches step (fun _ _ => True) init (meetingRun ++ [.mainAcquireGate, .submit 0])
      { meeting with
        workers := [⟨true, none, .calling editCall 2⟩, ⟨false, none, .waiting 1⟩]
        items := meetingItems ++ [⟨0, .call, false, false, false, none⟩]
        workQueue := [2]
        main := .waitingGate 1 editCall } := .of_follow (by decide)
  apply (always _ _ reaches).2
  exact ⟨1, editCall, 0, rfl, by decide, _, rfl, editCall, 2, _, rfl, rfl, rfl⟩

end McpServer

end WriterAgent.Mcp
