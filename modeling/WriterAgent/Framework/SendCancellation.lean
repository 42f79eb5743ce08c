import WriterAgent.Foundations.Runs

/-!
# Stop reaches every hook

`plugin/framework/queue_executor.py`: the `SendCancellation` of one send, with
calls from any number of threads.  A call goes on in steps: the look at the
flag, the set of the flag, each lock section and each call of a hook.
-/

namespace WriterAgent.Framework

variable {η ε : Type}

/-- A call of a method, and where it stands. -/
inductive CancelCall (η ε : Type) where
  /-- `stop` is none if the client has no such function. -/
  | registerClient (stop : Option η)
  | stopLate (stop : η)
  | registerOnCancel (hook : η)
  | bindExecutor (executor : ε)
  | cancel
  | cancelUnset
  | cancelSet
  | runHooks (hooks : List η) (executors : List ε)
  | cancelPending (executors : List ε)
  | returned
  deriving DecidableEq

/-- `_cancelled`, `_hooks` and `_executors` with the calls under way.  The
hooks that were called, those that raised and the executors whose pending work
was cancelled are not in the code. -/
structure SendCancellation (η ε : Type) where
  cancelled : Bool
  hooks : List η
  executors : List ε
  calls : List (CancelCall η ε)
  invoked : List η
  logged : List η
  stopped : List ε

namespace SendCancellation

def init : SendCancellation η ε := ⟨false, [], [], [], [], [], []⟩

/-- A thread makes a call, or the next step of one is taken.  `raises` is how
the hook ends if the step calls one. -/
inductive Action (η ε : Type) where
  | registerClient (stop : Option η)
  | registerOnCancel (hook : η)
  | bindExecutor (executor : ε)
  | cancel
  | advance (call : ℕ) (raises : Bool)

def setCall (scope : SendCancellation η ε) (i : ℕ) (call : CancelCall η ε) : SendCancellation η ε :=
  { scope with calls := scope.calls.set i call }

/-- `hook()` inside `try … except Exception: log.exception(…)`. -/
def invoke (scope : SendCancellation η ε) (hook : η) (raises : Bool) : SendCancellation η ε :=
  { scope with
    invoked := scope.invoked ++ [hook]
    logged := if raises then scope.logged ++ [hook] else scope.logged }

/-- The next step of the call at a place. -/
def advance [DecidableEq ε] (defaultExecutor : ε)
    (scope : SendCancellation η ε) (i : ℕ) (raises : Bool) :
    CancelCall η ε → Option (SendCancellation η ε)
  | .registerClient none => some (scope.setCall i .returned)
  | .registerClient (some stop) =>
    some (({ scope with hooks := scope.hooks ++ [stop] }).setCall i
      (if scope.cancelled then .stopLate stop else .returned))
  | .stopLate stop => some ((scope.invoke stop raises).setCall i .returned)
  | .registerOnCancel hook =>
    some (({ scope with hooks := scope.hooks ++ [hook] }).setCall i .returned)
  | .bindExecutor executor =>
    some (({ scope with
      executors := if executor ∈ scope.executors then scope.executors
        else scope.executors ++ [executor] }).setCall i .returned)
  | .cancel => some (scope.setCall i (if scope.cancelled then .returned else .cancelUnset))
  | .cancelUnset => some (({ scope with cancelled := true }).setCall i .cancelSet)
  | .cancelSet => some (scope.setCall i (.runHooks scope.hooks scope.executors))
  | .runHooks (hook :: hooks) executors =>
    some ((scope.invoke hook raises).setCall i (.runHooks hooks executors))
  | .runHooks [] executors =>
    some (scope.setCall i (.cancelPending
      (if executors.isEmpty then [defaultExecutor] else executors)))
  | .cancelPending (executor :: executors) =>
    some (({ scope with stopped := scope.stopped ++ [executor] }).setCall i
      (.cancelPending executors))
  | .cancelPending [] => some (scope.setCall i .returned)
  | .returned => none

def step [DecidableEq ε] (defaultExecutor : ε) (scope : SendCancellation η ε) :
    Action η ε → Option (SendCancellation η ε)
  | .registerClient stop => some { scope with calls := scope.calls ++ [.registerClient stop] }
  | .registerOnCancel hook => some { scope with calls := scope.calls ++ [.registerOnCancel hook] }
  | .bindExecutor executor => some { scope with calls := scope.calls ++ [.bindExecutor executor] }
  | .cancel => some { scope with calls := scope.calls ++ [.cancel] }
  | .advance i raises => scope.calls[i]?.bind (scope.advance defaultExecutor i raises)

def Settled (scope : SendCancellation η ε) : Prop :=
  (∀ call ∈ scope.calls, call = .returned) ∧ scope.cancelled = true

/-- Every registered stop function and every registered hook was called. -/
def AllInvoked (scope : SendCancellation η ε) : Prop :=
  ∀ hook ∈ scope.hooks, hook ∈ scope.invoked

end SendCancellation

/-- The call is a `cancel()` that has yet to take its snapshot. -/
def CancelCall.beforeSnapshot : CancelCall η ε → Bool
  | .cancelUnset => true
  | .cancelSet => true
  | _ => false

def CancelCall.Owes (hook : η) : CancelCall η ε → Prop
  | .stopLate stop => stop = hook
  | .runHooks hooks _ => hook ∈ hooks
  | _ => False

namespace SendCancellation

variable {scope changed final : SendCancellation η ε} {i : ℕ}
  {call next : CancelCall η ε} {action : Action η ε} {raises : Bool}

/-- `register_on_cancel` appends its hook before the flag is set, or while a
`cancel()` has yet to take its snapshot. -/
def inTime (scope : SendCancellation η ε) : Action η ε → Bool
  | .advance i _ =>
    match scope.calls[i]? with
    | some (.registerOnCancel _) => !scope.cancelled || scope.calls.any CancelCall.beforeSnapshot
    | _ => true
  | _ => true

/-- Once the flag is set, a registered hook was called, some call is about to
call it, or a snapshot that will hold it is still to come. -/
def Covered (scope : SendCancellation η ε) : Prop :=
  scope.cancelled = true → ∀ hook ∈ scope.hooks,
    hook ∈ scope.invoked ∨ ∃ call ∈ scope.calls, call.Owes hook ∨ call.beforeSnapshot = true

theorem Covered.allInvoked (covered : scope.Covered) (settled : scope.Settled) :
    scope.AllInvoked := by
  intro hook registered
  rcases covered settled.2 hook registered with called | ⟨call, member, open_⟩
  · exact called
  · rw [settled.1 call member] at open_
    rcases open_ with owes | before
    · cases owes
    · cases before

theorem Covered.newCall (covered : scope.Covered) (call : CancelCall η ε) :
    Covered { scope with calls := scope.calls ++ [call] } := by
  intro cancelled hook registered
  apply (covered cancelled hook registered).imp_right
  rintro ⟨call', member, open_⟩
  exact ⟨call', List.mem_append_left _ member, open_⟩

/-- **Step rule.** A step of the call at `i` keeps every hook covered, if what
the call owed was called or is owed by what it became, and a hook that it
added is covered. -/
theorem Covered.setCall (covered : scope.Covered) (found : scope.calls[i]? = some call)
    (sameCalls : changed.calls = scope.calls)
    (flag : changed.cancelled = true → scope.cancelled = true ∨ next.beforeSnapshot = true)
    (invoked : ∀ hook ∈ scope.invoked, hook ∈ changed.invoked)
    (owed : ∀ hook ∈ scope.hooks, call.Owes hook ∨ call.beforeSnapshot = true →
      hook ∈ changed.invoked ∨ next.Owes hook ∨ next.beforeSnapshot = true)
    (added : changed.cancelled = true → ∀ hook ∈ changed.hooks,
      hook ∈ scope.hooks ∨ next.Owes hook ∨
        ∃ other ∈ scope.calls, other ≠ call ∧ other.beforeSnapshot = true) :
    (changed.setCall i next).Covered := by
  have bound : i < changed.calls.length := by
    rw [sameCalls]
    exact (List.getElem?_eq_some_iff.mp found).1
  have isNext : next ∈ (changed.setCall i next).calls :=
    List.mem_set bound next
  have others : ∀ other ∈ scope.calls, other ≠ call → other ∈ (changed.setCall i next).calls := by
    intro other member different
    obtain ⟨j, isOther⟩ := List.mem_iff_getElem?.mp member
    have apart : i ≠ j := by
      rintro rfl
      exact different (Option.some.inj (isOther.symm.trans found))
    apply List.mem_of_getElem? (i := j)
    rw [SendCancellation.setCall, List.getElem?_set_ne apart, sameCalls, isOther]
  intro cancelled hook registered
  rcases added cancelled hook registered with old | owes | ⟨other, member, different, before⟩
  · rcases flag cancelled with already | before
    · rcases covered already hook old with called | ⟨other, member, open_⟩
      · exact .inl (invoked hook called)
      · by_cases same : other = call
        · rw [same] at open_
          exact (owed hook old open_).imp_right fun still => ⟨next, isNext, still⟩
        · exact .inr ⟨other, others other member same, open_⟩
    · exact .inr ⟨next, isNext, .inr before⟩
  · exact .inr ⟨next, isNext, .inl owes⟩
  · exact .inr ⟨other, others other member different, .inr before⟩

/-- A step that leaves the flag, the hooks and the calls of hooks alone. -/
theorem Covered.setCall_quiet (next : CancelCall η ε) (covered : scope.Covered)
    (found : scope.calls[i]? = some call)
    (owesNone : ∀ hook, ¬ (call.Owes hook ∨ call.beforeSnapshot = true))
    (executors stopped : List ε) :
    ({ scope with executors := executors, stopped := stopped }.setCall i next).Covered := by
  apply covered.setCall found rfl
  · exact .inl
  · exact fun _ called => called
  · exact fun hook _ open_ => absurd open_ (owesNone hook)
  · exact fun _ _ registered => .inl registered

variable [DecidableEq ε] {defaultExecutor : ε}

theorem Covered.advance (covered : scope.Covered) (found : scope.calls[i]? = some call)
    (timely : scope.inTime (.advance i raises) = true)
    (taken : scope.advance defaultExecutor i raises call = some changed) :
    changed.Covered := by
  have quiet : ∀ hook : η, ¬ (False ∨ false = true) := fun _ => by simp
  cases call with
  | registerClient stop =>
    cases stop with
    | none =>
      cases taken
      exact covered.setCall_quiet _ found quiet _ _
    | some stop =>
      cases taken
      refine covered.setCall found (by rfl) ?_ ?_ ?_ ?_
      · exact .inl
      · exact fun _ called => called
      · exact fun hook _ open_ => absurd open_ (quiet hook)
      · intro cancelled hook registered
        rw [if_pos cancelled]
        rcases List.mem_append.mp registered with old | isStop
        · exact .inl old
        · exact .inr (.inl (List.mem_singleton.mp isStop).symm)
  | stopLate stop =>
    cases taken
    refine covered.setCall found (by rfl) ?_ ?_ ?_ ?_
    · exact .inl
    · exact fun _ called => List.mem_append_left _ called
    · rintro hook _ (rfl | before)
      · exact .inl (List.mem_append_right _ List.mem_cons_self)
      · cases before
    · exact fun _ _ registered => .inl registered
  | registerOnCancel hook =>
    cases taken
    refine covered.setCall found (by rfl) ?_ ?_ ?_ ?_
    · exact .inl
    · exact fun _ called => called
    · exact fun hook _ open_ => absurd open_ (quiet hook)
    · intro cancelled hook' registered
      rcases List.mem_append.mp registered with old | _
      · exact .inl old
      · rw [inTime, found, cancelled] at timely
        obtain ⟨other, member, before⟩ := List.any_eq_true.mp timely
        refine .inr (.inr ⟨other, member, ?_, before⟩)
        rintro rfl
        cases before
  | bindExecutor | cancel =>
    cases taken
    exact covered.setCall_quiet _ found quiet _ _
  | cancelUnset =>
    cases taken
    refine covered.setCall found (by rfl) ?_ ?_ ?_ ?_
    · exact fun _ => .inr rfl
    · exact fun _ called => called
    · exact fun _ _ _ => .inr (.inr rfl)
    · exact fun _ _ registered => .inl registered
  | cancelSet =>
    cases taken
    refine covered.setCall found (by rfl) ?_ ?_ ?_ ?_
    · exact .inl
    · exact fun _ called => called
    · exact fun _ registered _ => .inr (.inl registered)
    · exact fun _ _ registered => .inl registered
  | runHooks hooks executors =>
    cases hooks with
    | nil =>
      cases taken
      refine covered.setCall_quiet _ found ?_ _ _
      rintro hook (owes | before)
      · cases owes
      · cases before
    | cons first hooks =>
      cases taken
      refine covered.setCall found (by rfl) ?_ ?_ ?_ ?_
      · exact .inl
      · exact fun _ called => List.mem_append_left _ called
      · rintro hook _ (owes | before)
        · rcases List.mem_cons.mp owes with rfl | later
          · exact .inl (List.mem_append_right _ List.mem_cons_self)
          · exact .inr (.inl later)
        · cases before
      · exact fun _ _ registered => .inl registered
  | cancelPending executors =>
    cases executors <;> cases taken <;>
      exact covered.setCall_quiet _ found quiet _ _
  | returned => cases taken

theorem Covered.step (covered : scope.Covered) (timely : scope.inTime action = true)
    (taken : scope.step defaultExecutor action = some changed) :
    changed.Covered := by
  cases action with
  | advance i raises =>
    obtain ⟨call, found, advanced⟩ := Option.bind_eq_some_iff.mp taken
    exact covered.advance found timely advanced
  | registerClient | registerOnCancel | bindExecutor | cancel =>
    cases taken
    exact covered.newCall _

/-- **No missed stop.** If every `register_on_cancel` comes in time, a
cancelled scope whose calls have all returned has called every hook. -/
theorem settled_allInvoked (defaultExecutor : ε) {run : List (Action η ε)}
    (reaches : Reaches (step defaultExecutor)
      (fun scope action => scope.inTime action = true) init run final)
    (settled : final.Settled) : final.AllInvoked := by
  have covered : final.Covered := by
    apply reaches.invariant Covered
    · exact fun _ _ _ covered timely taken => covered.step timely taken
    · exact nofun
  exact covered.allInvoked settled

/-- A client and a hook that raise, registered while and before `cancel()`
runs. -/
def stopRun : List (Action ℕ ℕ) :=
  [.registerOnCancel 1, .advance 0 false, .cancel, .advance 1 false,
    .registerOnCancel 2, .advance 1 false, .advance 2 false, .advance 1 false,
    .registerClient (some 3), .advance 3 false, .advance 1 true,
    .advance 3 true, .advance 1 false, .advance 1 false, .advance 1 false,
    .advance 1 false]

theorem settled_allInvoked_stopRun :
    ∃ final, Reaches (step 0) (fun scope action => scope.inTime action = true)
        init stopRun final ∧ final.Settled ∧ final.AllInvoked := by
  have reaches : Reaches (step 0) (fun scope action => scope.inTime action = true)
      init stopRun ⟨true, [1, 2, 3], [], [.returned, .returned, .returned, .returned],
        [1, 3, 2], [1, 3], [0]⟩ := Reaches.of_follow rfl
  have settled : Settled ⟨true, [1, 2, 3], [],
      [.returned, .returned, .returned, .returned], [1, 3, 2], [1, 3], [0]⟩ :=
    ⟨by decide, rfl⟩
  exact ⟨_, reaches, settled, settled_allInvoked 0 reaches settled⟩

/-- A hook that is registered after the stop. -/
theorem lateHook_missed : ∃ (run : List (Action ℕ ℕ)) (final : SendCancellation ℕ ℕ),
      Reaches (step 0) (fun _ _ => True) init run final ∧ final.Settled ∧ ¬ final.AllInvoked := by
  refine ⟨[.cancel, .advance 0 false, .advance 0 false, .advance 0 false,
    .advance 0 false, .advance 0 false, .advance 0 false, .registerOnCancel 7,
    .advance 1 false], ⟨true, [7], [], [.returned, .returned], [], [], [0]⟩,
    Reaches.of_follow rfl, ⟨by decide, rfl⟩, ?_⟩
  intro all
  cases all 7 List.mem_cons_self

end SendCancellation

end WriterAgent.Framework
