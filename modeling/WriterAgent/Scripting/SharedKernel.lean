import WriterAgent.Scripting.SandboxSessions

/-!
# The lifecycle of a shared kernel

An init script that has run is not run again, a kernel is seeded only from the
script that its calls pass, and what a cell has bound stays, as long as the
seeding before each cell finds nothing to write back.
-/

namespace WriterAgent.Scripting

open PyText EventLog List Option

variable {ν : Type}

def lastPassed (log : List (KernelEvent ν)) (initSession : Text) : Option Text :=
  (log.filterMap fun event =>
    match event with
    | .passed session hash => if session = initSession then some hash else none
    | .reset _ | .initRan _ _ _ | .cellRan _ => none).getLast?

/-- What lets the init script with this hash run again: a reset of its session
or of the workbook, or a call with another hash. -/
def Renews (initSession hash : Text) : KernelEvent ν → Prop
  | .reset session => session = initSession ∨ relatedInitSessionId session = some initSession
  | .passed session other => session = initSession ∧ other ≠ hash
  | .initRan _ _ _ | .cellRan _ => False

/-- Neither a reset of the session or its init session nor another hash than
the one passed last before. -/
def Undisturbed (before : List (KernelEvent ν)) (session : Text)
    (since : List (KernelEvent ν)) : Prop :=
  (∀ reset, .reset reset ∈ since → reset ≠ session ∧ reset ≠ session ++ initMark) ∧
    (∀ hash, .passed (session ++ initMark) hash ∈ since →
      lastPassed before (session ++ initMark) = some hash) ∧
    ∀ run, .cellRan run ∈ since → run.session ≠ some session

/-- A cell starts with the values that the cell before has left, up to the
names that the host injects. -/
def StartsFrom (first second : CellRun ν) : Prop :=
  ∀ name, name ∉ second.injected → second.entry.1.get? name = first.exit.1.get? name ∧
      second.entry.2.get? name = first.exit.2.get? name

structure KernelLifecycle (log : List (KernelEvent ν)) : Prop where
  initOnce : ∀ front middle back initSession hash ok,
    log = front ++ .initRan initSession hash true ::
        (middle ++ .initRan initSession hash ok :: back) →
      ∃ event ∈ middle, Renews initSession hash event
  valuesKept : ∀ front middle back first second session,
    log = front ++ .cellRan first :: (middle ++ .cellRan second :: back) →
      first.session = some session → second.session = some session →
        Undisturbed front session middle → StartsFrom first second
  ownSeeds : ∀ run, .cellRan run ∈ log → ∀ hash ∈ run.seeds, run.initHash = some hash

/-- Seeding the kernel again writes nothing new, injected names aside. -/
def SeedsAgree (init kernel : SandboxExecutor ν) (injected : List Text) :
    Prop :=
  (∀ entry ∈ init.snapshotBindings ++ init.customTools.entries,
      entry.1 ∉ injected → kernel.state.get? entry.1 = some entry.2) ∧
    ∀ entry ∈ init.customTools.entries,
      entry.1 ∉ injected → kernel.customTools.get? entry.1 = some entry.2

instance [DecidableEq ν] (init kernel : SandboxExecutor ν)
    (injected : List Text) : Decidable (SeedsAgree init kernel injected) :=
  inferInstanceAs (Decidable (_ ∧ _))

/-- A call on an existing kernel.  Without an init script, the kernel was never
seeded; with one, no call with it has failed and left the kernel unseeded, and
if it has run before, its namespace agrees with the kernel. -/
def FitsKernel (sandbox : Sandbox ν) (call : SandboxCall ν) (kernel : SandboxExecutor ν) : Prop :=
  (call.initScript = none → kernel.seeds = []) ∧ ∀ script ∈ call.initScript,
      (sandbox.initHash.get? script.session = none →
        lastPassed sandbox.log script.session ≠ some script.hash) ∧
      (sandbox.initHash.get? script.session = some script.hash →
        ∀ init ∈ sandbox.executors.get? script.session,
          SeedsAgree init kernel ((call.sent ++ call.tools).map Prod.fst))

instance [DecidableEq ν] (sandbox : Sandbox ν) (call : SandboxCall ν) (kernel : SandboxExecutor ν) :
    Decidable (FitsKernel sandbox call kernel) :=
  inferInstanceAs (Decidable (_ ∧ _))

/-- The session, the workbook of the init script and the reset session are no
init sessions, calls fit the kernels they find, and an init session is reset by
itself only while its cells have no seeded kernel. -/
def KeepsLifecycle (sandbox : Sandbox ν) : SandboxAction ν → Prop
  | .run call =>
    (∀ session ∈ call.session, isInitId session = false ∧
      ∀ kernel ∈ sandbox.executors.get? session, FitsKernel sandbox call kernel) ∧
    ∀ script ∈ call.initScript, isInitId script.base = false
  | .reset session =>
    isInitId session = true → ∀ cell ∈ cellSessionForInit session,
        ∀ kernel ∈ sandbox.executors.get? cell, kernel.seeds = []

instance [DecidableEq ν] (sandbox : Sandbox ν) :
    (action : SandboxAction ν) → Decidable (KeepsLifecycle sandbox action)
  | .run _ => inferInstanceAs (Decidable (_ ∧ _))
  | .reset _ => inferInstanceAs (Decidable (_ → _))

variable {sandbox ready : Sandbox ν} {callable : ν → Bool} {mainName : ν}
  {session initSession name base digest : Text} {event last : KernelEvent ν}
  {run : SandboxRun ν} {log front since : List (KernelEvent ν)}
  {kernel init after : SandboxExecutor ν} {call : SandboxCall ν}
  {dict : PyDict Text ν} {pairs : List (Text × ν)} {first : CellRun ν}

theorem get?_updateDict_of_agrees
    (agrees : ∀ value, (name, value) ∈ pairs → dict.get? name = some value) :
    (updateDict dict pairs).get? name = dict.get? name := by
  induction pairs generalizing dict with
  | nil => rfl
  | cons head rest ih =>
    have first : (dict.set head.1 head.2).get? name = dict.get? name := by
      rw [PyDict.get?_set]
      split
      · rename_i same
        subst same
        exact (agrees head.2 mem_cons_self).symm
      · rfl
    rw [← first]
    apply ih
    intro value member
    rw [first]
    exact agrees value (mem_cons_of_mem _ member)

theorem get?_updateDict_of_notMem (absent : name ∉ pairs.map Prod.fst) :
    (updateDict dict pairs).get? name = dict.get? name := by
  apply get?_updateDict_of_agrees
  intro value member
  exact absurd (mem_map.mpr ⟨_, member, rfl⟩) absent

theorem SeedsAgree.starts {sent tools : List (Text × ν)}
    (agree : SeedsAgree init kernel ((sent ++ tools).map Prod.fst))
    (free : name ∉ (sent ++ tools).map Prod.fst) :
    ((kernel.seedFrom init).inject sent tools).state.get? name = kernel.state.get? name ∧
      ((kernel.seedFrom init).inject sent tools).customTools.get? name =
        kernel.customTools.get? name := by
  obtain ⟨bindings, helpers⟩ := agree
  rw [map_append, mem_append, not_or] at free
  have unsent : ∀ entry : Text × ν, entry.1 = name → entry.1 ∉ (sent ++ tools).map Prod.fst := by
    intro entry same
    rw [same, map_append, mem_append, not_or]
    exact free
  constructor
  · simp only [SandboxExecutor.inject, SandboxExecutor.seedFrom]
    rw [get?_updateDict_of_notMem free.1]
    have bound : (updateDict kernel.state init.snapshotBindings).get? name =
        kernel.state.get? name := by
      apply get?_updateDict_of_agrees
      intro value member
      exact bindings (name, value) (mem_append_left _ member) (unsent _ rfl)
    rw [← bound]
    apply get?_updateDict_of_agrees
    intro value member
    rw [bound]
    exact bindings (name, value) (mem_append_right _ member) (unsent _ rfl)
  · simp only [SandboxExecutor.inject, SandboxExecutor.seedFrom]
    rw [get?_updateDict_of_notMem free.2]
    apply get?_updateDict_of_agrees
    intro value member
    exact helpers (name, value) member (unsent _ rfl)

theorem isInitId_append (base : Text) : isInitId (base ++ initMark) = true := by
  rw [isInitId, isSuffixOf_iff_suffix]
  exact suffix_append base initMark

theorem cellSessionForInit_append (base : Text) :
    cellSessionForInit (base ++ initMark) = some base := by
  rw [cellSessionForInit, if_pos (isInitId_append base), length_append,
    Nat.add_sub_cancel, take_left]

theorem append_initMark_inj {left right : Text} :
    left ++ initMark = right ++ initMark ↔ left = right :=
  append_left_inj initMark

theorem ne_of_isInitId {other : Text} (plain : isInitId session = false)
    (marked : isInitId other = true) : session ≠ other := by
  rintro rfl
  exact absurd (plain.symm.trans marked) Bool.false_ne_true

theorem strip_initSession (base : Text) : (strip (base ++ initMark)).isEmpty = false := by
  have colon : ':' ∈ strip (base ++ initMark) :=
    mem_strip (mem_append_right _ mem_cons_self) (by decide)
  exact isEmpty_eq_false_iff_exists_mem.mpr ⟨_, colon⟩

theorem of_relatedInitSessionId (related : relatedInitSessionId session = some initSession) :
    isInitId session = false ∧ initSession = session ++ initMark := by
  rw [relatedInitSessionId] at related
  split_ifs at related with workbook
  rw [Bool.and_eq_true, Bool.not_eq_true'] at workbook
  exact ⟨workbook.2, (some.inj related).symm⟩

theorem lastPassed_snoc_passed (initSession hash : Text) :
    lastPassed (log ++ [.passed initSession hash]) initSession = some hash := by
  simp [lastPassed]

theorem lastPassed_snoc_of_ne (other : ∀ hash, event ≠ .passed initSession hash) :
    lastPassed (log ++ [event]) initSession = lastPassed log initSession := by
  cases event with
  | passed session hash =>
    have different : session ≠ initSession := by
      rintro rfl
      exact other hash rfl
    simp [lastPassed, different]
  | reset | initRan | cellRan => simp [lastPassed]

/-- Two runs of an init script. -/
def InitPair (_ : List (KernelEvent ν)) (event : KernelEvent ν)
    (between : List (KernelEvent ν)) (last : KernelEvent ν) : Prop :=
  ∀ initSession hash ok, event = .initRan initSession hash true →
    last = .initRan initSession hash ok → ∃ renewal ∈ between, Renews initSession hash renewal

def CellPair (front : List (KernelEvent ν)) (event : KernelEvent ν)
    (between : List (KernelEvent ν)) (last : KernelEvent ν) : Prop :=
  ∀ first second session, event = .cellRan first → last = .cellRan second →
    first.session = some session → second.session = some session →
      Undisturbed front session between → StartsFrom first second

structure Lifecycle (log : List (KernelEvent ν)) : Prop where
  once : Pairs InitPair log
  kept : Pairs CellPair log
  own : ∀ run, .cellRan run ∈ log → ∀ hash ∈ run.seeds, run.initHash = some hash

theorem Lifecycle.kernelLifecycle (lifecycle : Lifecycle log) : KernelLifecycle log where
  initOnce _ _ _ initSession hash ok split :=
    lifecycle.once.holds split initSession hash ok rfl rfl
  valuesKept _ _ _ first second session split :=
    lifecycle.kept.holds split first second session rfl rfl
  ownSeeds := lifecycle.own

theorem Lifecycle.snoc_other (lifecycle : Lifecycle log)
    (notInit : ∀ initSession hash ok, event ≠ .initRan initSession hash ok)
    (notCell : ∀ run, event ≠ .cellRan run) : Lifecycle (log ++ [event]) where
  once := lifecycle.once.snoc fun _ _ _ _ _ _ _ _ isInit =>
    absurd isInit (notInit _ _ _)
  kept := lifecycle.kept.snoc fun _ _ _ _ _ _ _ _ isCell =>
    absurd isCell (notCell _)
  own run member := by
    rcases mem_append.mp member with before | isLast
    · exact lifecycle.own run before
    · exact absurd (mem_singleton.mp isLast).symm (notCell run)

/-- The hash of an init script that has run is kept until it is renewed. -/
def HashKept (hashes : PyDict Text Text) (_ : List (KernelEvent ν))
    (event : KernelEvent ν) (since : List (KernelEvent ν)) : Prop :=
  ∀ initSession hash, event = .initRan initSession hash true →
    (∀ later ∈ since, ¬ Renews initSession hash later) → hashes.get? initSession = some hash

/-- The namespace that a cell has left is kept while it is undisturbed. -/
def KernelKept (executors : PyDict Text (SandboxExecutor ν)) (front : List (KernelEvent ν))
    (event : KernelEvent ν) (since : List (KernelEvent ν)) : Prop :=
  ∀ run session, event = .cellRan run → run.session = some session →
    Undisturbed front session since → isInitId session = false ∧ session ≠ [] ∧
        ∃ kernel, executors.get? session = some kernel ∧
          (kernel.state, kernel.customTools) = run.exit

/-- What the maps of the sandbox say about the events so far. -/
structure Coherent (sandbox : Sandbox ν) : Prop where
  named : sandbox.executors.get? [] = none
  initIds : ∀ initSession hash, sandbox.initHash.get? initSession = some hash →
    isInitId initSession = true
  sourced : ∀ initSession hash, sandbox.initHash.get? initSession = some hash →
      ∃ executor, sandbox.executors.get? initSession = some executor ∧ executor.source = some hash
  seeded : ∀ session executor, isInitId session = false →
    sandbox.executors.get? session = some executor → ∀ hash ∈ executor.seeds,
        sandbox.initHash.get? (session ++ initMark) = some hash
  last : ∀ initSession hash, sandbox.initHash.get? initSession = some hash →
      lastPassed sandbox.log initSession = some hash
  hashSince : Since (HashKept sandbox.initHash) sandbox.log
  kernelSince : Since (KernelKept sandbox.executors) sandbox.log
  lifecycle : Lifecycle sandbox.log

theorem coherent_init : Coherent (Sandbox.init : Sandbox ν) where
  named := rfl
  initIds := nofun
  sourced := nofun
  seeded := nofun
  last := nofun
  hashSince := since_nil
  kernelSince := since_nil
  lifecycle := ⟨everywhere_nil, everywhere_nil, nofun⟩

theorem Undisturbed.of_append {more : List (KernelEvent ν)}
    (undisturbed : Undisturbed front session (since ++ more)) :
    Undisturbed front session since := by
  obtain ⟨noReset, samePassed, noCell⟩ := undisturbed
  exact ⟨fun reset member => noReset reset (mem_append_left _ member),
    fun hash member => samePassed hash (mem_append_left _ member),
    fun run member => noCell run (mem_append_left _ member)⟩

theorem HashKept.later {before after : PyDict Text Text} (kept : HashKept before front event since)
    (keeps : ∀ initSession hash, before.get? initSession = some hash →
      ¬ Renews initSession hash last → after.get? initSession = some hash) :
    HashKept after front event (since ++ [last]) := by
  intro initSession hash isInit unrenewed
  apply keeps initSession hash
  · exact kept initSession hash isInit fun later member =>
      unrenewed later (mem_append_left _ member)
  · exact unrenewed last (mem_append_right _ mem_cons_self)

theorem KernelKept.later {before after : PyDict Text (SandboxExecutor ν)}
    (kept : KernelKept before front event since)
    (keeps : ∀ session kernel, isInitId session = false → session ≠ [] →
      Undisturbed front session (since ++ [last]) →
        before.get? session = some kernel → after.get? session = some kernel) :
    KernelKept after front event (since ++ [last]) := by
  intro run session isCell shares undisturbed
  obtain ⟨plain, named, kernel, found, same⟩ :=
    kept run session isCell shares undisturbed.of_append
  exact ⟨plain, named, kernel, keeps session kernel plain named undisturbed found, same⟩

theorem Coherent.pass {sandbox : Sandbox ν} (coherent : Coherent sandbox)
    {initSession digest : Text}
    (same : ∀ prior, sandbox.initHash.get? initSession = some prior → prior = digest) :
    Coherent (sandbox.note (.passed initSession digest)) where
  named := coherent.named
  initIds := coherent.initIds
  sourced := coherent.sourced
  seeded := coherent.seeded
  last session hash found := by
    by_cases this : session = initSession
    · subst this
      rw [same hash found]
      exact lastPassed_snoc_passed session digest
    · have before := coherent.last session hash found
      rw [← before]
      apply lastPassed_snoc_of_ne
      intro other isPassed
      exact this (KernelEvent.passed.inj isPassed).1.symm
  hashSince := Since.snoc coherent.hashSince
    (fun _ _ _ _ kept => kept.later fun _ _ found _ => found) nofun
  kernelSince := Since.snoc coherent.kernelSince
    (fun _ _ _ _ kept => kept.later fun _ _ _ _ _ found => found) nofun
  lifecycle := coherent.lifecycle.snoc_other nofun nofun

theorem get?_clearInitSession : (sandbox.clearInitSession (base ++ initMark)).initHash.get? name =
        (if name = base ++ initMark then none
          else sandbox.initHash.get? name) ∧
      (sandbox.clearInitSession (base ++ initMark)).executors.get? name =
        if name = base ++ initMark ∨ name = base ∧ base ≠ [] then none
        else sandbox.executors.get? name := by
  simp only [Sandbox.clearInitSession, cellSessionForInit_append]
  cases base with
  | nil => simp [Sandbox.popExecutor, Sandbox.popHash]
  | cons c rest =>
    simp only [isEmpty_cons, Bool.false_eq_true, if_false, Sandbox.popExecutor, Sandbox.popHash,
      PyDict.get?_pop, ne_eq, reduceCtorEq, not_false_eq_true, and_true]
    by_cases isBase : name = c :: rest <;> simp [isBase]

theorem log_clearInitSession : (sandbox.clearInitSession initSession).log = sandbox.log := by
  rw [Sandbox.clearInitSession]
  split
  · split <;> rfl
  · rfl

theorem Undisturbed.lastPassed_eq {run : CellRun ν} (undisturbed : Undisturbed front session since)
    (isCell : event = .cellRan run) :
    lastPassed (front ++ event :: since) (session ++ initMark) =
      lastPassed front (session ++ initMark) := by
  subst isCell
  have split : lastPassed (front ++ .cellRan run :: since)
      (session ++ initMark) = (lastPassed since (session ++ initMark)).or
        (lastPassed front (session ++ initMark)) := by
    simp [lastPassed, filterMap_append, List.getLast?_append]
  rw [split]
  cases found : lastPassed since (session ++ initMark) with
  | none => rfl
  | some hash =>
    have member : .passed (session ++ initMark) hash ∈ since := by
      have isLast := mem_of_getLast? found
      obtain ⟨event, inSince, isPassed⟩ := mem_filterMap.mp isLast
      split at isPassed
      · split_ifs at isPassed with same
        cases isPassed
        subst same
        exact inSince
      · cases isPassed
      · cases isPassed
      · cases isPassed
    exact (undisturbed.2.1 hash member).symm

theorem Coherent.passChanged (coherent : Coherent sandbox) {prior : Text}
    (plain : isInitId base = false) (ran : sandbox.initHash.get? (base ++ initMark) = some prior)
    (changed : prior ≠ digest) :
    Coherent ((sandbox.note (.passed (base ++ initMark) digest)).clearInitSession
      (base ++ initMark)) := by
  have hashes : ∀ name hash, sandbox.initHash.get? name = some hash → name ≠ base ++ initMark →
        ((sandbox.note (.passed (base ++ initMark) digest)).clearInitSession
          (base ++ initMark)).initHash.get? name = some hash := by
    intro name hash found other
    rw [get?_clearInitSession.1, if_neg other]
    exact found
  have kernels : ∀ name kernel, sandbox.executors.get? name = some kernel →
      name ≠ base ++ initMark → (name = base → base = []) →
        ((sandbox.note (.passed (base ++ initMark) digest)).clearInitSession
          (base ++ initMark)).executors.get? name = some kernel := by
    intro name kernel found other notBase
    rw [get?_clearInitSession.2, if_neg]
    · exact found
    · rintro (isInit | ⟨isBase, filled⟩)
      · exact other isInit
      · exact filled (notBase isBase)
  exact {
    named := by
      rw [get?_clearInitSession.2]
      split
      · rfl
      · exact coherent.named
    initIds := by
      intro session hash found
      rw [get?_clearInitSession.1] at found
      split_ifs at found
      exact coherent.initIds session hash found
    sourced := by
      intro session hash found
      rw [get?_clearInitSession.1] at found
      split_ifs at found with other
      have marked := coherent.initIds session hash found
      obtain ⟨executor, isExecutor, source⟩ :=
        coherent.sourced session hash found
      refine ⟨executor, kernels session executor isExecutor other ?_, source⟩
      intro isBase
      exact absurd isBase (ne_of_isInitId plain marked).symm
    seeded := by
      intro session executor isPlain found hash isSeed
      rw [get?_clearInitSession.2] at found
      split_ifs at found with other
      rw [not_or, not_and, not_not] at other
      have before := coherent.seeded session executor isPlain found hash isSeed
      apply hashes _ _ before
      intro isInit
      have isBase := append_initMark_inj.mp isInit
      rw [isBase, other.2 isBase] at found
      cases coherent.named.symm.trans found
    last := by
      intro session hash found
      rw [get?_clearInitSession.1] at found
      rw [log_clearInitSession]
      split_ifs at found with other
      rw [← coherent.last session hash found]
      apply lastPassed_snoc_of_ne
      intro hash isPassed
      exact other (KernelEvent.passed.inj isPassed).1.symm
    hashSince := by
      rw [log_clearInitSession]
      refine Since.snoc coherent.hashSince (fun _ _ _ _ kept => ?_) (by rintro _ _ ⟨⟩)
      apply kept.later
      intro session hash found unrenewed
      apply hashes session hash found
      rintro rfl
      -- the hash that has run is another than the one passed
      apply unrenewed
      refine ⟨rfl, ?_⟩
      rw [ran] at found
      cases found
      exact changed.symm
    kernelSince := by
      rw [log_clearInitSession]
      refine Since.snoc coherent.kernelSince (fun front event since split kept => ?_) (by rintro _ _ ⟨⟩)
      intro run session isCell shares undisturbed
      obtain ⟨isPlain, named, kernel, found, same⟩ :=
        kept run session isCell shares undisturbed.of_append
      refine ⟨isPlain, named, kernel, ?_, same⟩
      apply kernels session kernel found
      · exact ne_of_isInitId isPlain (isInitId_append base)
      · rintro rfl
        have passedBefore := undisturbed.2.1 digest (mem_append_right _ mem_cons_self)
        have lastBefore := coherent.last _ _ ran
        rw [split, undisturbed.of_append.lastPassed_eq isCell, passedBefore] at lastBefore
        exact absurd (some.inj lastBefore).symm changed
    lifecycle := by
      rw [log_clearInitSession]
      exact coherent.lifecycle.snoc_other (by rintro _ _ _ ⟨⟩) (by rintro _ ⟨⟩) }

theorem Lifecycle.initRan (coherent : Coherent sandbox)
    (absent : sandbox.initHash.get? initSession = none) (digest : Text) (ok : Bool) :
    Lifecycle (sandbox.log ++ [.initRan initSession digest ok]) where
  once := by
    apply coherent.lifecycle.once.snoc
    refine Since.mono coherent.hashSince ?_
    intro front event since kept session hash again isInit isLast
    cases isLast
    by_contra unrenewed
    push Not at unrenewed
    have found := kept initSession digest isInit unrenewed
    cases absent.symm.trans found
  kept := coherent.lifecycle.kept.snoc fun _ _ _ _ _ _ _ _ isCell =>
    nomatch isCell
  own run member := by
    rcases mem_append.mp member with before | isLast
    · exact coherent.lifecycle.own run before
    · cases mem_singleton.mp isLast

theorem coherent_afterInit {sandbox after : Sandbox ν}
    (coherent : Coherent sandbox) {initSession digest : Text} {ok : Bool}
    (marked : isInitId initSession = true)
    (absent : sandbox.initHash.get? initSession = none)
    (log : after.log = sandbox.log ++ [.initRan initSession digest ok])
    (otherHashes : ∀ name, name ≠ initSession →
      after.initHash.get? name = sandbox.initHash.get? name)
    (otherExecutors : ∀ name, name ≠ initSession →
      after.executors.get? name = sandbox.executors.get? name)
    (ownHash : after.initHash.get? initSession =
      if ok then some digest else none)
    (ownSource : ok = true → ∃ executor, after.executors.get? initSession = some executor ∧
        executor.source = some digest)
    (passedLast : lastPassed sandbox.log initSession = some digest) :
    Coherent after where
  named := by
    rw [otherExecutors [] (by rintro rfl; cases marked)]
    exact coherent.named
  initIds session hash found := by
    by_cases own : session = initSession
    · rw [own]
      exact marked
    · rw [otherHashes session own] at found
      exact coherent.initIds session hash found
  sourced session hash found := by
    by_cases own : session = initSession
    · subst own
      rw [ownHash] at found
      split_ifs at found with isOk
      cases found
      exact ownSource isOk
    · rw [otherHashes session own] at found
      rw [otherExecutors session own]
      exact coherent.sourced session hash found
  seeded session executor plain found hash isSeed := by
    rw [otherExecutors session (ne_of_isInitId plain marked)] at found
    have before := coherent.seeded session executor plain found hash isSeed
    rw [otherHashes]
    · exact before
    · intro own
      rw [own, absent] at before
      cases before
  last session hash found := by
    have unpassed : ∀ other, (.initRan initSession digest ok : KernelEvent ν) ≠
          .passed session other := nofun
    rw [log, lastPassed_snoc_of_ne unpassed]
    by_cases own : session = initSession
    · subst own
      rw [ownHash] at found
      split_ifs at found
      rw [passedLast, found]
    · rw [otherHashes session own] at found
      exact coherent.last session hash found
  hashSince := by
    rw [log]
    refine Since.snoc coherent.hashSince (fun _ _ _ _ kept => ?_) ?_
    · apply kept.later
      intro session hash found _
      rw [otherHashes]
      · exact found
      · rintro rfl
        cases absent.symm.trans found
    · intro session hash isInit _
      cases isInit
      exact ownHash
  kernelSince := by
    rw [log]
    refine Since.snoc coherent.kernelSince (fun _ _ _ _ kept => ?_) nofun
    apply kept.later
    intro session kernel plain _ _ found
    rw [otherExecutors session (ne_of_isInitId plain marked)]
    exact found
  lifecycle := log ▸ Lifecycle.initRan coherent absent digest ok

theorem runInit_cases {sandbox : Sandbox ν} {callable : ν → Bool}
    {mainName : ν} {initSession digest : Text} {run : SandboxRun ν} :
    (∃ executor : SandboxExecutor ν, sandbox.runInit callable mainName initSession digest run =
        ({ (sandbox.note (.initRan initSession digest true)).putExecutor
            initSession { executor with source := some digest } with
            initHash := sandbox.initHash.set initSession digest }, true)) ∨
      sandbox.runInit callable mainName initSession digest run =
        (((sandbox.note (.initRan initSession digest false)).popExecutor
          initSession).popHash initSession, false) := by
  rcases result : ((sandbox.executorOf mainName initSession).inject
    run.initSent []).runOn callable run.initCode with ⟨executor, ok⟩
  simp only [Sandbox.runInit, result]
  cases ok with
  | true => exact Or.inl ⟨executor, rfl⟩
  | false => exact Or.inr rfl

theorem Coherent.runInit (coherent : Coherent sandbox) (marked : isInitId initSession = true)
    (absent : sandbox.initHash.get? initSession = none)
    (passedLast : lastPassed sandbox.log initSession = some digest) :
    Coherent (sandbox.runInit callable mainName initSession digest run).1 ∧
      ((sandbox.runInit callable mainName initSession digest run).2 = true →
        (sandbox.runInit callable mainName initSession digest
          run).1.initHash.get? initSession = some digest) := by
  rcases @runInit_cases ν sandbox callable mainName initSession digest run with
    ⟨executor, ran⟩ | failed
  · rw [ran]
    constructor
    · refine @coherent_afterInit ν sandbox _ coherent initSession digest true
        marked absent rfl ?_ ?_ ?_ ?_ passedLast
      · intro name other
        simp [other]
      · intro name other
        simp [Sandbox.putExecutor, Sandbox.note, other]
      · simp
      · intro _
        simp [Sandbox.putExecutor]
    · simp
  · rw [failed]
    constructor
    · refine @coherent_afterInit ν sandbox _ coherent initSession digest false
        marked absent rfl ?_ ?_ ?_ (by rintro ⟨⟩) passedLast
      · intro name other
        simp [Sandbox.popExecutor, Sandbox.popHash, Sandbox.note, other]
      · intro name other
        simp [Sandbox.popExecutor, Sandbox.popHash, Sandbox.note, other]
      · simp [Sandbox.popExecutor, Sandbox.popHash, Sandbox.note]
    · rintro ⟨⟩

/-- **The init script.** After `_ensure_init_executed` without an error the
hash passed is the one that has run. -/
theorem Coherent.ensureInitExecuted {sandbox : Sandbox ν} (coherent : Coherent sandbox)
    {callable : ν → Bool} {mainName : ν} {base digest : Text} {run : SandboxRun ν}
    (plain : isInitId base = false) :
    Coherent (sandbox.ensureInitExecuted callable mainName (base ++ initMark) digest run).1 ∧
      ((sandbox.ensureInitExecuted callable mainName (base ++ initMark) digest run).2 = true →
        (sandbox.ensureInitExecuted callable mainName (base ++ initMark) digest
          run).1.initHash.get? (base ++ initMark) = some digest) := by
  have marked := isInitId_append base
  have passedLast : lastPassed (sandbox.note (.passed (base ++ initMark) digest)).log
      (base ++ initMark) = some digest :=
    lastPassed_snoc_passed _ _
  unfold Sandbox.ensureInitExecuted
  cases ran : sandbox.initHash.get? (base ++ initMark) with
  | none =>
    have passes : Coherent (sandbox.note (.passed (base ++ initMark) digest)) :=
      coherent.pass fun prior found => absurd (ran.symm.trans found) nofun
    exact passes.runInit marked ran passedLast
  | some prior =>
    dsimp only
    by_cases same : prior = digest
    · subst same
      obtain ⟨executor, found, _⟩ := coherent.sourced _ _ ran
      rw [if_pos rfl, if_pos (PyDict.contains_iff.mpr ⟨executor, found⟩)]
      refine ⟨coherent.pass fun other isOther => ?_, fun _ => ran⟩
      exact some.inj (isOther.symm.trans ran)
    · rw [if_neg same]
      have passes := coherent.passChanged plain ran same
      refine passes.runInit marked ?_ ?_
      · rw [get?_clearInitSession.1, if_pos rfl]
      · rw [log_clearInitSession]
        exact passedLast

theorem seeds_runOn {executor : SandboxExecutor ν} {code : CodeEffect ν} :
    (executor.runOn callable code).1.seeds = executor.seeds := by
  unfold SandboxExecutor.runOn
  split
  split <;> rfl

theorem Coherent.runCell (coherent : Coherent sandbox)
    (plain : ∀ session, run.sharedSession = some session → isInitId session = false ∧ session ≠ [])
    (own : ∀ hash ∈ (sandbox.cellEntry mainName run).seeds, run.initScriptHash = some hash ∧
        ∀ session, run.sharedSession = some session →
          sandbox.initHash.get? (session ++ initMark) = some hash)
    (starts : ∀ after, Since (fun front event since =>
      CellPair front event since (.cellRan
        (Sandbox.cellRun run (sandbox.cellEntry mainName run) after)))
      sandbox.log) : Coherent (sandbox.runCell callable mainName run) := by
  unfold Sandbox.runCell
  dsimp only
  have seeds : (((sandbox.cellEntry mainName run).runOn callable
      run.code).1).seeds = (sandbox.cellEntry mainName run).seeds := seeds_runOn
  generalize ((sandbox.cellEntry mainName run).runOn callable run.code).1 = after at seeds ⊢
  have lifecycle : Lifecycle (sandbox.log ++ [.cellRan
      (Sandbox.cellRun run (sandbox.cellEntry mainName run) after)]) := {
    once := coherent.lifecycle.once.snoc fun _ _ _ _ _ _ _ _ isInit =>
      nomatch isInit
    kept := coherent.lifecycle.kept.snoc (starts after)
    own := by
      intro other member hash isSeed
      rcases mem_append.mp member with before | isLast
      · exact coherent.lifecycle.own other before hash isSeed
      · cases mem_singleton.mp isLast
        exact (own hash isSeed).1 }
  have hashSince : Since (HashKept sandbox.initHash) (sandbox.log ++ [.cellRan
      (Sandbox.cellRun run (sandbox.cellEntry mainName run) after)]) :=
    Since.snoc coherent.hashSince (fun _ _ _ _ kept => kept.later fun _ _ found _ => found) nofun
  have last : ∀ initSession hash, sandbox.initHash.get? initSession = some hash →
        lastPassed (sandbox.log ++ [.cellRan
          (Sandbox.cellRun run (sandbox.cellEntry mainName run) after)])
          initSession = some hash := by
    intro initSession hash found
    have unpassed : ∀ other, (.cellRan (Sandbox.cellRun run
        (sandbox.cellEntry mainName run) after) : KernelEvent ν) ≠
          .passed initSession other := nofun
    rw [lastPassed_snoc_of_ne unpassed]
    exact coherent.last initSession hash found
  cases shared : run.sharedSession with
  | none =>
    exact {
      named := coherent.named
      initIds := coherent.initIds
      sourced := coherent.sourced
      seeded := coherent.seeded
      last := last
      hashSince := hashSince
      kernelSince := by
        refine Since.snoc coherent.kernelSince
          (fun _ _ _ _ kept => kept.later fun _ _ _ _ _ found => found) ?_
        intro other session isCell shares
        cases isCell
        cases shared.symm.trans shares
      lifecycle := lifecycle }
  | some session =>
    obtain ⟨isPlain, filled⟩ := plain session shared
    have others : ∀ name, name ≠ session → (sandbox.executors.set session after).get? name =
          sandbox.executors.get? name := by
      intro name other
      rw [PyDict.get?_set, if_neg other]
    have itself : (sandbox.executors.set session after).get? session = some after := by
      rw [PyDict.get?_set, if_pos rfl]
    exact {
      named := (others [] filled.symm).trans coherent.named
      initIds := coherent.initIds
      sourced := by
        intro initSession hash found
        have marked := coherent.initIds initSession hash found
        have other := (ne_of_isInitId isPlain marked).symm
        obtain ⟨executor, isExecutor, source⟩ :=
          coherent.sourced initSession hash found
        exact ⟨executor, (others initSession other).trans isExecutor, source⟩
      seeded := by
        intro name executor namePlain found hash isSeed
        by_cases same : name = session
        · subst same
          cases itself.symm.trans found
          rw [seeds] at isSeed
          exact (own hash isSeed).2 name shared
        · exact coherent.seeded name executor namePlain
            ((others name same).symm.trans found) hash isSeed
      last := last
      hashSince := hashSince
      kernelSince := by
        refine Since.snoc coherent.kernelSince (fun _ _ _ _ kept => ?_) ?_
        · apply kept.later
          intro name kernel _ _ undisturbed found
          have other : name ≠ session := by
            rintro rfl
            exact undisturbed.2.2 _ (mem_append_right _ mem_cons_self) shared
          exact (others name other).trans found
        · intro other name isCell shares _
          cases isCell
          cases shared.symm.trans shares
          exact ⟨isPlain, filled, after, itself, rfl⟩
      lifecycle := lifecycle }

theorem ensureInitExecuted_ready (coherent : Coherent sandbox) (plain : isInitId base = false)
    (executed : sandbox.ensureInitExecuted callable mainName
      (base ++ initMark) digest run = (ready, true)) :
    (∃ more, ready.log = sandbox.log ++ .passed (base ++ initMark) digest :: more ∧
      ∀ run, .cellRan run ∉ more) ∧
      ((sandbox.initHash.get? (base ++ initMark) = some digest ∧
          ready.executors = sandbox.executors) ∨
        (sandbox.initHash.get? (base ++ initMark) = none ∧
          ready.executors.get? base = sandbox.executors.get? base) ∨
        (base ≠ [] → ready.executors.get? base = none)) := by
  have other : base ≠ base ++ initMark :=
    ne_of_isInitId plain (isInitId_append base)
  -- the log and the kernel after the script has run
  have ran : ∀ {before : Sandbox ν}, before.runInit callable mainName
      (base ++ initMark) digest run = (ready, true) →
        ready.log = before.log ++ [.initRan (base ++ initMark) digest true] ∧
          ready.executors.get? base = before.executors.get? base := by
    intro before isReady
    rcases @runInit_cases ν before callable mainName (base ++ initMark) digest
      run with ⟨executor, isRun⟩ | failed
    · cases isRun.symm.trans isReady
      refine ⟨rfl, ?_⟩
      simp only [Sandbox.putExecutor, PyDict.get?_set, if_neg other]
      rfl
    · cases failed.symm.trans isReady
  unfold Sandbox.ensureInitExecuted at executed
  cases found : sandbox.initHash.get? (base ++ initMark) with
  | none =>
    rw [found] at executed
    obtain ⟨isLog, sameKernel⟩ := ran executed
    refine ⟨⟨_, isLog.trans (append_assoc _ _ _), ?_⟩, Or.inr (Or.inl ⟨rfl, sameKernel⟩)⟩
    simp
  | some prior =>
    rw [found] at executed
    dsimp only at executed
    split at executed
    · rename_i same
      subst same
      obtain ⟨executor, isExecutor, _⟩ := coherent.sourced _ _ found
      rw [if_pos (PyDict.contains_iff.mpr ⟨executor, isExecutor⟩)] at executed
      cases executed
      exact ⟨⟨[], rfl, fun _ => not_mem_nil⟩, Or.inl ⟨rfl, rfl⟩⟩
    · obtain ⟨isLog, sameKernel⟩ := ran executed
      rw [log_clearInitSession] at isLog
      refine ⟨⟨_, isLog.trans (append_assoc _ _ _), ?_⟩, Or.inr (Or.inr fun filled => ?_)⟩
      · simp
      · rw [sameKernel, get?_clearInitSession.2, if_pos (Or.inr ⟨rfl, filled⟩)]

theorem startsFrom_inject (left : (kernel.state, kernel.customTools) = first.exit) :
    StartsFrom first (Sandbox.cellRun run (kernel.inject run.sent run.tools) after) := by
  intro name free
  rw [← left]
  simp only [Sandbox.cellRun, map_append, mem_append, not_or] at free
  exact ⟨get?_updateDict_of_notMem free.1, get?_updateDict_of_notMem free.2⟩

theorem SeedsAgree.startsFrom
    (agree : SeedsAgree init kernel ((run.sent ++ run.tools).map Prod.fst))
    (left : (kernel.state, kernel.customTools) = first.exit) :
    StartsFrom first (Sandbox.cellRun run
      ((kernel.seedFrom init).inject run.sent run.tools) after) := by
  intro name free
  rw [← left]
  exact agree.starts free

theorem sharedSession_arguments (shared : call.arguments.sharedSession = some session) :
    call.session = some session ∧ session ≠ [] := by
  obtain ⟨found, filled⟩ := filter_eq_some_iff.mp shared
  refine ⟨found, ?_⟩
  rintro rfl
  exact absurd filled (by decide)

theorem initSid_arguments (call : SandboxCall ν) :
    call.arguments.initSid = call.initScript.map (·.session) := by
  cases isScript : call.initScript with
  | none => simp [SandboxRun.initSid, SandboxCall.arguments, isScript]
  | some script =>
    simp [SandboxRun.initSid, SandboxCall.arguments, isScript,
      InitScript.session, strip_initSession]

theorem Coherent.bareCell (coherent : Coherent sandbox)
    (bare : call.initScript = none) (keeps : KeepsLifecycle sandbox (.run call)) :
    Coherent (sandbox.runCell callable mainName call.arguments) := by
  have noInit : call.arguments.initSid = none := by
    rw [initSid_arguments, bare]
    rfl
  have entryIs : ∀ session, call.arguments.sharedSession = some session →
      sandbox.cellEntry mainName call.arguments =
        (sandbox.executorOf mainName session).inject call.arguments.sent
          call.arguments.tools := by
    intro session shared
    simp only [Sandbox.cellEntry, Sandbox.seeded, noInit, shared, bind_none]
  apply coherent.runCell
  · intro session shared
    obtain ⟨isSession, filled⟩ := sharedSession_arguments shared
    exact ⟨(keeps.1 session isSession).1, filled⟩
  · intro hash isSeed
    cases shared : call.arguments.sharedSession with
    | none =>
      simp only [Sandbox.cellEntry, Sandbox.seeded, noInit, shared, bind_none] at isSeed
      cases isSeed
    | some session =>
      obtain ⟨isSession, -⟩ := sharedSession_arguments shared
      rw [entryIs session shared] at isSeed
      cases found : sandbox.executors.get? session with
      | none =>
        simp only [Sandbox.executorOf, found] at isSeed
        cases isSeed
      | some kernel =>
        have unseeded := ((keeps.1 session isSession).2 kernel found).1 bare
        simp only [Sandbox.executorOf, found, getD_some, SandboxExecutor.inject, unseeded] at isSeed
        cases isSeed
  · intro after
    refine Since.mono coherent.kernelSince ?_
    intro front event since kept first second session isCell isLast shares sharesToo undisturbed
    cases isLast
    obtain ⟨-, -, kernel, found, left⟩ :=
      kept first session isCell shares undisturbed
    rw [entryIs session sharesToo, Sandbox.executorOf, found]
    exact startsFrom_inject left

theorem Coherent.seededCell (coherent : Coherent sandbox) {script : InitScript}
    (isScript : call.initScript = some script)
    (keeps : KeepsLifecycle sandbox (.run call))
    (executed : sandbox.ensureInitExecuted callable mainName script.session
      script.hash call.arguments = (ready, true)) :
    Coherent (ready.runCell callable mainName call.arguments) := by
  have basePlain := keeps.2 script isScript
  have ensured := @Coherent.ensureInitExecuted ν sandbox coherent callable
    mainName script.base script.hash call.arguments basePlain
  rw [show script.base ++ initMark = script.session from rfl, executed]
    at ensured
  obtain ⟨isCoherent, hashIs⟩ := ensured
  have hash := hashIs rfl
  obtain ⟨init, isInit, source⟩ := isCoherent.sourced _ _ hash
  have initSid : call.arguments.initSid = some script.session := by
    rw [initSid_arguments, isScript]
    rfl
  have ofBase : ∀ session, call.session = some session → session ++ initMark = script.session := by
    intro session isSession
    rw [← call.matched session script isSession isScript]
    rfl
  have entryIs : ∀ session, call.arguments.sharedSession = some session →
      ready.cellEntry mainName call.arguments =
        ((ready.executorOf mainName session).seedFrom init).inject
          call.arguments.sent call.arguments.tools := by
    intro session shared
    simp only [Sandbox.cellEntry, Sandbox.seeded, initSid, shared, bind_some, isInit]
  have passedHash : call.arguments.initScriptHash = some script.hash := by
    simp [SandboxCall.arguments, isScript]
  apply isCoherent.runCell
  · intro session shared
    obtain ⟨isSession, filled⟩ := sharedSession_arguments shared
    exact ⟨(keeps.1 session isSession).1, filled⟩
  · intro seed isSeed
    cases shared : call.arguments.sharedSession with
    | none =>
      simp only [Sandbox.cellEntry, Sandbox.seeded, initSid, shared, bind_some, isInit,
        SandboxExecutor.inject, SandboxExecutor.seedFrom, SandboxExecutor.new, source, toList_some,
        nil_append, mem_singleton] at isSeed
      subst isSeed
      exact ⟨passedHash, nofun⟩
    | some session =>
      obtain ⟨isSession, -⟩ := sharedSession_arguments shared
      have found : ready.initHash.get? (session ++ initMark) = some script.hash := by
        rw [ofBase session isSession]
        exact hash
      have isHash : seed = script.hash := by
        rw [entryIs session shared] at isSeed
        simp only [SandboxExecutor.inject, SandboxExecutor.seedFrom, source,
          toList_some, mem_append, mem_singleton] at isSeed
        rcases isSeed with old | new
        · cases isKernel : ready.executors.get? session with
          | none =>
            simp only [Sandbox.executorOf, isKernel] at old
            cases old
          | some kernel =>
            simp only [Sandbox.executorOf, isKernel, getD_some] at old
            have seeded := isCoherent.seeded session kernel
              (keeps.1 session isSession).1 isKernel seed old
            exact some.inj (seeded.symm.trans found)
        · exact new
      subst isHash
      refine ⟨passedHash, fun other isOther => ?_⟩
      cases isOther
      exact found
  · intro after front event since split first second session isCell isLast
      shares sharesToo undisturbed
    cases isLast
    obtain ⟨isSession, filled⟩ := sharedSession_arguments sharesToo
    have isBase : script.base = session :=
      call.matched session script isSession isScript
    obtain ⟨-, -, kernel, found, left⟩ := isCoherent.kernelSince front event
      since split first session isCell shares undisturbed
    rw [entryIs session sharesToo, Sandbox.executorOf, found]
    -- what the call found before the init script
    obtain ⟨⟨more, isLog, noCells⟩, shape⟩ :=
      ensureInitExecuted_ready coherent basePlain executed
    rw [isBase] at shape isLog
    have isOld : event ∉ KernelEvent.passed (session ++ initMark) script.hash ::
        more := by
      rw [isCell, mem_cons, not_or]
      exact ⟨nofun, noCells first⟩
    obtain ⟨body, rfl, before⟩ := split_of_append (isLog.symm.trans split) isOld
    have isScriptSession : script.session = session ++ initMark :=
      (ofBase session isSession).symm
    rcases shape with ⟨ran, sameExecutors⟩ | ⟨absent, sameKernel⟩ | dropped
    · rw [sameExecutors] at found isInit
      have fits := (keeps.1 session isSession).2 kernel found
      have agree := (fits.2 script isScript).2 (isScriptSession ▸ ran) init isInit
      exact agree.startsFrom left
    · rw [sameKernel] at found
      have fits := (keeps.1 session isSession).2 kernel found
      have changed := (fits.2 script isScript).1 (isScriptSession ▸ absent)
      have passedBefore := undisturbed.2.1 script.hash (mem_append_right _ mem_cons_self)
      have lastIs := undisturbed.of_append.lastPassed_eq isCell
      rw [← before, passedBefore, ← isScriptSession] at lastIs
      exact absurd lastIs changed
    · cases ((dropped filled).symm.trans found)

theorem get?_resetSession {sandbox : Sandbox ν} {reset : Text}
    (visible : (strip reset).isEmpty = false) (name : Text) :
    (sandbox.resetSession reset).executors.get? name =
        (if name = reset ∨ relatedInitSessionId reset = some name then none
          else sandbox.executors.get? name) ∧
      (sandbox.resetSession reset).initHash.get? name = (if relatedInitSessionId reset = some name ∨
            isInitId reset = true ∧ name = reset then none
          else sandbox.initHash.get? name) := by
  unfold Sandbox.resetSession
  rw [if_neg (by rw [visible]; exact Bool.false_ne_true)]
  cases related : relatedInitSessionId reset with
  | none =>
    cases isInitId reset with
    | true => simp [Sandbox.note, Sandbox.popHash, Sandbox.popExecutor]
    | false => simp [Sandbox.note, Sandbox.popExecutor]
  | some initSession =>
    have plain := (of_relatedInitSessionId related).1
    by_cases isInit : name = initSession
    · simp [Sandbox.note, Sandbox.popHash, Sandbox.popExecutor, plain, isInit]
    · simp [Sandbox.note, Sandbox.popHash, Sandbox.popExecutor, plain, isInit, Ne.symm isInit]

theorem Coherent.reset (coherent : Coherent sandbox) {reset : Text}
    (keeps : KeepsLifecycle sandbox (.reset reset)) :
    Coherent (sandbox.resetSession reset) := by
  cases visible : (strip reset).isEmpty with
  | true =>
    rw [Sandbox.resetSession, if_pos visible]
    exact coherent
  | false =>
    have log : (sandbox.resetSession reset).log = sandbox.log ++ [.reset reset] := by
      unfold Sandbox.resetSession
      rw [if_neg (by rw [visible]; exact Bool.false_ne_true)]
      split <;> split <;> rfl
    have maps := @get?_resetSession ν sandbox reset visible
    have keptKernel : ∀ session, isInitId session = false →
        session ≠ reset → (sandbox.resetSession reset).executors.get? session =
          sandbox.executors.get? session := by
      intro session plain other
      rw [(maps session).1, if_neg]
      rintro (same | related)
      · exact other same
      · rw [(of_relatedInitSessionId related).2, isInitId_append] at plain
        cases plain
    exact {
      named := by
        rw [(maps []).1]
        split
        · rfl
        · exact coherent.named
      initIds := by
        intro session hash found
        rw [(maps session).2] at found
        split_ifs at found
        exact coherent.initIds session hash found
      sourced := by
        intro session hash found
        rw [(maps session).2] at found
        split_ifs at found with other
        have marked := coherent.initIds session hash found
        rw [(maps session).1, if_neg]
        · exact coherent.sourced session hash found
        · rintro (same | related)
          · subst same
            exact other (Or.inr ⟨marked, rfl⟩)
          · exact other (Or.inl related)
      seeded := by
        intro session executor plain found hash isSeed
        rw [(maps session).1] at found
        split_ifs at found with other
        have before := coherent.seeded session executor plain found hash isSeed
        rw [(maps _).2, if_neg]
        · exact before
        · rintro (related | ⟨marked, rfl⟩)
          · have same := append_initMark_inj.mp (of_relatedInitSessionId related).2
            exact other (Or.inl same)
          · have unseeded := keeps marked session (cellSessionForInit_append session) executor found
            rw [unseeded] at isSeed
            cases isSeed
      last := by
        intro session hash found
        rw [(maps session).2] at found
        rw [log]
        split_ifs at found
        have unpassed : ∀ other, (.reset reset : KernelEvent ν) ≠ .passed session other := by
          rintro _ ⟨⟩
        rw [lastPassed_snoc_of_ne unpassed]
        exact coherent.last session hash found
      hashSince := by
        rw [log]
        refine Since.snoc coherent.hashSince (fun _ _ _ _ kept => ?_) (by rintro _ _ ⟨⟩)
        apply kept.later
        intro session hash found unrenewed
        rw [(maps session).2, if_neg]
        · exact found
        · rintro (related | ⟨-, rfl⟩)
          · exact unrenewed (Or.inr related)
          · exact unrenewed (Or.inl rfl)
      kernelSince := by
        rw [log]
        refine Since.snoc coherent.kernelSince (fun _ _ _ _ kept => ?_) (by rintro _ _ ⟨⟩)
        apply kept.later
        intro session kernel plain _ undisturbed found
        have other := (undisturbed.1 reset (mem_append_right _ mem_cons_self)).1
        rw [keptKernel session plain other.symm]
        exact found
      lifecycle := by
        rw [log]
        exact coherent.lifecycle.snoc_other (by rintro _ _ _ ⟨⟩) (by rintro _ ⟨⟩) }

/-- **Step.** -/
theorem Coherent.step (coherent : Coherent sandbox) {action : SandboxAction ν}
    (keeps : KeepsLifecycle sandbox action) :
    Coherent (sandbox.step callable mainName action) := by
  cases action with
  | reset session => exact coherent.reset keeps
  | run call =>
    simp only [Sandbox.step, Sandbox.runSandboxedCode, initSid_arguments]
    cases isScript : call.initScript with
    | none => exact coherent.bareCell isScript keeps
    | some script =>
      have given : call.arguments.initScript = some script.script := by
        simp [SandboxCall.arguments, isScript]
      have passed : call.arguments.initScriptHash = some script.hash := by
        simp [SandboxCall.arguments, isScript]
      simp only [map_some, given, passed, getD_some, script.filled, Bool.false_eq_true, if_false]
      rcases executed : sandbox.ensureInitExecuted callable mainName
        script.session script.hash call.arguments with ⟨ready, ok⟩
      cases ok with
      | true => exact coherent.seededCell isScript keeps executed
      | false =>
        have failed := (@Coherent.ensureInitExecuted ν sandbox coherent
          callable mainName script.base script.hash call.arguments
          (keeps.2 script isScript)).1
        rw [show script.base ++ initMark = script.session from rfl, executed] at failed
        exact failed

/-- **The lifecycle of a shared kernel.** In every sequence of calls and resets
that keeps to the condition, a successful init script does not run again before
a reset or another hash, a cell starts with the values that the cell before has
left, and no cell runs in a namespace seeded from another init script than the
one passed. -/
theorem kernelLifecycle_of_run (callable : ν → Bool) (mainName : ν)
    {actions : List (SandboxAction ν)}
    (along : Along (Sandbox.step callable mainName) KeepsLifecycle Sandbox.init actions) :
    KernelLifecycle (actions.foldl (Sandbox.step callable mainName) Sandbox.init).log :=
  (along.foldl_invariant Coherent (fun _ _ coherent keeps => coherent.step keeps)
    coherent_init).lifecycle.kernelLifecycle

/-- The init script `x = 1` of one workbook. -/
def constantScript : InitScript where
  base := "calc:a".toList
  script := "x = 1".toList
  hash := "h".toList
  filled := by decide

def bindingCall (name : Text) (value : ℕ) : SandboxCall ℕ where
  session := some "calc:a".toList
  initScript := some constantScript
  code state tools := (state.set name value, tools, .served)
  sent := []
  tools := []
  initCode state tools := (state.set "x".toList 1, tools, .served)
  initSent := []
  matched := by
    intro id script isSession isScript
    cases isSession
    cases isScript
    rfl

theorem kernelLifecycle_of_run_newName :
    Along (Sandbox.step (fun _ => false) 0) KeepsLifecycle Sandbox.init
        [.run (bindingCall "y".toList 2), .run (bindingCall "y".toList 3)] ∧
      KernelLifecycle (([.run (bindingCall "y".toList 2), .run (bindingCall "y".toList 3)] :
          List (SandboxAction ℕ)).foldl (Sandbox.step (fun _ => false) 0) Sandbox.init).log := by
  have along : Along (Sandbox.step (fun _ => false) 0) KeepsLifecycle Sandbox.init
      [.run (bindingCall "y".toList 2), .run (bindingCall "y".toList 3)] :=
    ⟨by decide +kernel, by decide +kernel, trivial⟩
  exact ⟨along, kernelLifecycle_of_run (fun _ => false) 0 along⟩

/-- A cell rebinds the name of the init script; the next cell finds the value of
the script again. -/
theorem not_kernelLifecycle_reboundName : ¬ ∀ actions : List (SandboxAction ℕ), KernelLifecycle
        (actions.foldl (Sandbox.step (fun _ => false) 0) Sandbox.init).log := by
  intro every
  have lifecycle := every [.run (bindingCall "x".toList 5), .run (bindingCall "y".toList 2)]
  obtain ⟨first, second, isLog, shares, sharesToo, left, started⟩ : ∃ first second,
        (([.run (bindingCall "x".toList 5), .run (bindingCall "y".toList 2)] :
          List (SandboxAction ℕ)).foldl (Sandbox.step (fun _ => false) 0) Sandbox.init).log =
          [.passed constantScript.session constantScript.hash,
            .initRan constantScript.session constantScript.hash true] ++
          .cellRan first :: ([.passed constantScript.session constantScript.hash] ++
              .cellRan second :: []) ∧
        first.session = some "calc:a".toList ∧
        second.session = some "calc:a".toList ∧
        first.exit.1.get? "x".toList = some 5 ∧
        second.injected = [] ∧
        second.entry.1.get? "x".toList = some 1 :=
    ⟨_, _, rfl, rfl, rfl, rfl, rfl, rfl⟩
  have kept := lifecycle.valuesKept _ _ _ first second "calc:a".toList isLog
    shares sharesToo ⟨by simp, by
      intro hash member
      cases mem_singleton.mp member
      decide +kernel, by simp⟩ "x".toList (by rw [started.1]; simp)
  rw [left, started.2] at kept
  exact absurd kept.1 (by decide)

end WriterAgent.Scripting
