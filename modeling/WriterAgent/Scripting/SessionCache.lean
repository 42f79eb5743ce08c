import WriterAgent.Foundations.Runs
import WriterAgent.Scripting.SessionManager

/-!
# One workbook at a time

When a single session id is recorded, a recalculation off the main thread uses
the cache without knowing its workbook.
-/

namespace WriterAgent.Scripting

open PyText List Option Bool

variable {ω κ : Type}

/-- The cache, and the workbooks that are recorded and not closed; the probe
is none of them. -/
structure SessionRun (ω κ : Type) where
  cache : SessionCache ω κ
  workbooks : List ω

def SessionRun.init : SessionRun ω κ := ⟨.init, []⟩

/-- A workbook is recorded under a session id of it, or without an id, each
time with its init kwargs and its document or not; and it is closed under a
session id of it. -/
inductive SessionAction (ω κ : Type) where
  | record (session : Text) (initKwargs : Option (List (Text × κ))) (doc : Bool)
  | recordUnnamed (workbook : ω) (initKwargs : Option (List (Text × κ))) (doc : Bool)
  | close (session : Text) (order : SetOrder)

/-- A call of `record_active_calc_session` for a workbook. -/
def recordWorkbook (world : SessionWorld ω) (session : Option Text)
    (workbook : ω) (initKwargs : Option (List (Text × κ))) (doc : Bool)
    (cache : SessionCache ω κ) : SessionCache ω κ :=
  recordActiveCalcSession world session (initKwargs.map fun entries => ⟨workbook, entries⟩)
    (if doc then some workbook else none) cache

def SessionRun.step [DecidableEq ω] (world : SessionWorld ω)
    (run : SessionRun ω κ) : SessionAction ω κ → SessionRun ω κ
  | .record session initKwargs doc =>
    ⟨recordWorkbook world (some session) (world.workbookOf session) initKwargs doc run.cache,
    if isOpenclProbeSessionId session then run.workbooks
    else run.workbooks.insert (world.workbookOf session)⟩
  | .recordUnnamed workbook initKwargs doc =>
    ⟨recordWorkbook world none workbook initKwargs doc run.cache, run.workbooks⟩
  | .close session order =>
    ⟨clearActiveCalcSession world order (some session) run.cache,
      run.workbooks.filter (· ≠ world.workbookOf session)⟩

/-- Everything that is cached is of the workbook with this id, and no other
workbook is open. -/
structure SessionRun.Serves (world : SessionWorld ω) (run : SessionRun ω κ)
    (session : Text) : Prop where
  cached : getCachedCalcSessionId run.cache = some session
  document : ∀ alive, ∀ doc ∈ getCachedCalcDocument alive run.cache,
    doc = world.workbookOf session
  scopedDir : ∀ dir ∈ getCachedCalcScopedDir run.cache,
    scopedDirFromCalcSessionId world (some session) = some dir
  initKwargs : ∀ kwargs ∈ getCachedCalcInitKwargs run.cache,
    kwargs.workbook = world.workbookOf session
  alone : ∀ workbook ∈ run.workbooks, workbook = world.workbookOf session

def SessionRun.IsCoherent (world : SessionWorld ω) (run : SessionRun ω κ) :
    Prop :=
  offMainCalcSessionIsUnambiguous run.cache = true → ∃ session, run.Serves world session

def SessionRun.ServesOpen (world : SessionWorld ω) (run : SessionRun ω κ) :
    Prop :=
  offMainCalcSessionIsUnambiguous run.cache = true → ∃ session, run.Serves world session ∧
      world.workbookOf session ∈ run.workbooks

/-- The cached document and init kwargs are those of a workbook. -/
structure SessionCache.HeldBy (cache : SessionCache ω κ) (workbook : ω) : Prop where
  doc : ∀ doc ∈ cache.doc, doc = workbook
  initKwargs : ∀ kwargs ∈ cache.initKwargs, kwargs.workbook = workbook

def bringsKwargs (initKwargs : Option (List (Text × κ))) : Bool :=
  initKwargs.any (!·.isEmpty)

/-- What a call does not bring is cached from the same workbook, if at all. -/
structure SessionCache.Completes (cache : SessionCache ω κ) (workbook : ω)
    (initKwargs : Option (List (Text × κ))) (doc : Bool) : Prop where
  doc : doc = false → ∀ cached ∈ cache.doc, cached = workbook
  initKwargs : bringsKwargs initKwargs = false →
    ∀ cached ∈ cache.initKwargs, cached.workbook = workbook

/-- With one id recorded, a call that records none brings nothing of another
workbook. -/
def SessionCache.Fits (world : SessionWorld ω) (cache : SessionCache ω κ)
    (workbook : ω) (initKwargs : Option (List (Text × κ))) (doc : Bool) :
    Prop :=
  cache.recorded.length = 1 → ∀ last ∈ cache.lastId, bringsKwargs initKwargs = true ∨
        doc = true ∧ world.referable workbook = true →
      workbook = world.workbookOf last

def SessionRun.LeavesNothing (world : SessionWorld ω) (run : SessionRun ω κ) :
    SessionAction ω κ → Prop
  | .record session initKwargs doc =>
    if isOpenclProbeSessionId session then
      run.cache.Fits world (world.workbookOf session) initKwargs doc
    else
      (∀ stale ∈ staleIds session (run.cache.recorded.insert session),
        world.workbookOf stale = world.workbookOf session) ∧
      ((recordedWith session run.cache.recorded).length = 1 →
        run.cache.Completes (world.workbookOf session) initKwargs doc)
  | .recordUnnamed workbook initKwargs doc => run.cache.Fits world workbook initKwargs doc
  | .close session _ => run.cache.lastId ≠ some session →
      (run.cache.recorded.filter (· != session)).length = 1 →
        ∀ last ∈ run.cache.lastId, run.cache.HeldBy (world.workbookOf last)

/-- A workbook is closed under the only id it is recorded with. -/
def SessionRun.ClosesWhole (world : SessionWorld ω) (run : SessionRun ω κ) :
    SessionAction ω κ → Prop
  | .close session _ => ∀ other ∈ run.cache.recorded,
      world.workbookOf other = world.workbookOf session → other = session
  | _ => True

variable {session other : Text} {recorded : List Text} {order : SetOrder}
  {initKwargs : Option (List (Text × κ))} {doc : Bool} {world : SessionWorld ω}
  {workbook : ω} {action : SessionAction ω κ} {cache : SessionCache ω κ}

section Record

variable {world : SessionWorld ω} {workbook : ω}
  {initKwargs : Option (List (Text × κ))} {doc : Bool}
  {cache : SessionCache ω κ}

theorem storeInitKwargs_recorded (kwargs : Option (InitKwargs ω κ)) :
    (storeInitKwargs kwargs cache).lastId = cache.lastId ∧
      (storeInitKwargs kwargs cache).recorded = cache.recorded ∧
      (storeInitKwargs kwargs cache).scopedDir = cache.scopedDir ∧
      (storeInitKwargs kwargs cache).doc = cache.doc := by
  cases kwargs with
  | none => exact ⟨rfl, rfl, rfl, rfl⟩
  | some kwargs =>
    rw [storeInitKwargs]
    split <;> exact ⟨rfl, rfl, rfl, rfl⟩

theorem recordActiveCalcDocument_recorded (doc : Option ω) :
    (recordActiveCalcDocument world doc cache).lastId = cache.lastId ∧
      (recordActiveCalcDocument world doc cache).recorded = cache.recorded ∧
      (recordActiveCalcDocument world doc cache).scopedDir = cache.scopedDir ∧
      (recordActiveCalcDocument world doc cache).initKwargs =
        cache.initKwargs := by
  cases doc with
  | none | some doc => exact ⟨rfl, rfl, rfl, rfl⟩

theorem mem_storeInitKwargs {kwargs : InitKwargs ω κ}
    (member : kwargs ∈ (storeInitKwargs (initKwargs.map fun entries =>
      ⟨workbook, entries⟩) cache).initKwargs) :
    bringsKwargs initKwargs = true ∧ kwargs.workbook = workbook ∨
      bringsKwargs initKwargs = false ∧ kwargs ∈ cache.initKwargs := by
  cases initKwargs with
  | none => exact .inr ⟨rfl, member⟩
  | some entries =>
    rw [map_some, storeInitKwargs] at member
    cases empty : entries.isEmpty with
    | true =>
      rw [if_pos empty] at member
      exact .inr ⟨by rw [bringsKwargs, any_some, empty]; rfl, member⟩
    | false =>
      rw [if_neg (by rw [empty]; exact false_ne_true)] at member
      cases member
      exact .inl ⟨by rw [bringsKwargs, any_some, empty]; rfl, rfl⟩

theorem mem_recordActiveCalcDocument {cached : ω} (member : cached ∈ (recordActiveCalcDocument world
      (if doc then some workbook else none) cache).doc) :
    (doc = true ∧ world.referable workbook = true) ∧ cached = workbook ∨
      doc = false ∧ cached ∈ cache.doc := by
  cases doc with
  | false => exact .inr ⟨rfl, member⟩
  | true =>
    rw [if_pos rfl, recordActiveCalcDocument] at member
    cases referable : world.referable workbook with
    | true =>
      simp only [referable, if_true] at member
      exact .inl ⟨⟨rfl, rfl⟩, (some.inj member).symm⟩
    | false =>
      simp only [referable, false_eq_true, if_false] at member
      cases member

theorem recordWorkbook_aside {session : Option Text}
    (aside : ∀ id ∈ session, isOpenclProbeSessionId id = true) :
    recordWorkbook world session workbook initKwargs doc cache =
      storeInitKwargs (initKwargs.map fun entries => ⟨workbook, entries⟩)
        (recordActiveCalcDocument world (if doc then some workbook else none) cache) := by
  cases session with
  | none => rfl
  | some id => simp only [recordWorkbook, recordActiveCalcSession, aside id rfl, if_true]

theorem recordWorkbook_named (named : isOpenclProbeSessionId session = false) :
    recordWorkbook world (some session) workbook initKwargs doc cache =
      storeInitKwargs (initKwargs.map fun entries => ⟨workbook, entries⟩)
        { recordActiveCalcDocument world (if doc then some workbook else none) cache with
          lastId := some session
          recorded := recordedWith session cache.recorded
          scopedDir := scopedDirFromCalcSessionId world (some session) } := by
  have unchanged := @recordActiveCalcDocument_recorded ω κ world cache
    (if doc then some workbook else none)
  simp only [recordWorkbook, recordActiveCalcSession, named, false_eq_true, if_false, unchanged.2.1]

theorem heldBy_named (named : isOpenclProbeSessionId session = false)
    (completes : cache.Completes workbook initKwargs doc) :
    (recordWorkbook world (some session) workbook initKwargs doc cache).HeldBy workbook := by
  rw [recordWorkbook_named named]
  constructor
  · intro cached member
    rw [(storeInitKwargs_recorded _).2.2.2] at member
    rcases mem_recordActiveCalcDocument member with ⟨-, same⟩ | ⟨none, old⟩
    · exact same
    · exact completes.doc none cached old
  · intro cached member
    rcases mem_storeInitKwargs member with ⟨-, same⟩ | ⟨none, old⟩
    · exact same
    · refine completes.initKwargs none cached ?_
      rwa [← (recordActiveCalcDocument_recorded _).2.2.2]

theorem heldBy_aside {session : Option Text} {holder : ω}
    (aside : ∀ id ∈ session, isOpenclProbeSessionId id = true)
    (held : cache.HeldBy holder)
    (fits : bringsKwargs initKwargs = true ∨
      doc = true ∧ world.referable workbook = true → workbook = holder) :
    (recordWorkbook world session workbook initKwargs doc cache).HeldBy holder := by
  rw [recordWorkbook_aside aside]
  constructor
  · intro cached member
    rw [(storeInitKwargs_recorded _).2.2.2] at member
    rcases mem_recordActiveCalcDocument member with ⟨brings, same⟩ | ⟨-, old⟩
    · exact same.trans (fits (.inr brings))
    · exact held.doc cached old
  · intro cached member
    rcases mem_storeInitKwargs member with ⟨brings, same⟩ | ⟨-, old⟩
    · exact same.trans (fits (.inl brings))
    · refine held.initKwargs cached ?_
      rwa [← (recordActiveCalcDocument_recorded _).2.2.2]

end Record

theorem mem_recordedWith_self (session : Text) (recorded : List Text) :
    session ∈ recordedWith session recorded := by
  rw [recordedWith, mem_filter]
  refine ⟨mem_insert_self, ?_⟩
  rw [Bool.not_eq_true', ← not_eq_true, contains_iff_mem, staleIds, mem_filter]
  rintro ⟨-, stale⟩
  cases unsaved : isUnsavedId session with
  | false =>
    rw [unsaved] at stale
    cases stale
  | true => simp at stale

theorem mem_recordedWith_or (member : other ∈ recorded) : other ∈ recordedWith session recorded ∨
      other ∈ staleIds session (recorded.insert session) := by
  by_cases stale : other ∈ staleIds session (recorded.insert session)
  · exact .inr stale
  · left
    rw [recordedWith, mem_filter]
    refine ⟨mem_insert_of_mem member, ?_⟩
    rwa [Bool.not_eq_true', ← not_eq_true, contains_iff_mem]

theorem mem_of_mem_recordedWith (member : other ∈ recordedWith session recorded) :
    other = session ∨ other ∈ recorded :=
  mem_insert_iff.mp (mem_filter.mp member).1

theorem SetOrder.mem_of_first (first : order.first recorded = some session) : session ∈ recorded :=
  (order.perm recorded).mem_iff.mp (mem_of_head? first)

theorem SetOrder.first_ne_none (nonempty : recorded ≠ []) : order.first recorded ≠ none := by
  intro none
  have empty := List.head?_eq_none_iff.mp none
  have perm := order.perm recorded
  rw [empty] at perm
  exact nonempty perm.nil_eq.symm

/-- The last id is recorded, its folder is cached, every open workbook has a
recorded id, and a single id holds what is cached. -/
structure SessionRun.Tracked (world : SessionWorld ω) (run : SessionRun ω κ) : Prop where
  lastMem : ∀ last ∈ run.cache.lastId, last ∈ run.cache.recorded
  lastSome : run.cache.recorded ≠ [] → run.cache.lastId ≠ none
  scopedDir : run.cache.scopedDir = scopedDirFromCalcSessionId world run.cache.lastId
  covered : ∀ workbook ∈ run.workbooks,
    ∃ session ∈ run.cache.recorded, world.workbookOf session = workbook
  held : run.cache.recorded.length = 1 →
    ∀ last ∈ run.cache.lastId, run.cache.HeldBy (world.workbookOf last)

namespace SessionRun.Tracked

variable {world : SessionWorld ω} {run : SessionRun ω κ}

theorem init : (SessionRun.init : SessionRun ω κ).Tracked world where
  lastMem := nofun
  lastSome absurdity := absurd rfl absurdity
  scopedDir := rfl
  covered := nofun
  held := nofun

theorem serves (tracked : run.Tracked world)
    (single : offMainCalcSessionIsUnambiguous run.cache = true) :
    ∃ session, run.Serves world session ∧ run.cache.recorded = [session] := by
  have length : run.cache.recorded.length = 1 := eq_of_beq single
  obtain ⟨session, only⟩ := length_eq_one_iff.mp length
  have nonempty : run.cache.recorded ≠ [] := by
    rw [only]
    exact cons_ne_nil _ _
  obtain ⟨last, isLast⟩ :=
    Option.ne_none_iff_exists'.mp (tracked.lastSome nonempty)
  have same : last = session := by
    have member := tracked.lastMem last isLast
    rw [only] at member
    exact mem_singleton.mp member
  subst same
  have held := tracked.held length last isLast
  refine ⟨last, ?_, only⟩
  constructor
  · exact isLast
  · intro alive doc cached
    rw [getCachedCalcDocument] at cached
    split at cached
    · cases cached
    · exact held.doc doc (mem_filter_iff.mp cached).1
  · intro dir cached
    rw [getCachedCalcScopedDir] at cached
    split at cached
    · cases cached
    · rwa [tracked.scopedDir, isLast] at cached
  · exact held.initKwargs
  · intro workbook isOpen
    obtain ⟨session, member, same⟩ := tracked.covered workbook isOpen
    rw [only] at member
    rw [← same, mem_singleton.mp member]

theorem recordAside (tracked : run.Tracked world) {session : Option Text}
    (aside : ∀ id ∈ session, isOpenclProbeSessionId id = true)
    (fits : run.cache.Fits world workbook initKwargs doc) :
    Tracked world ⟨recordWorkbook world session workbook initKwargs doc
      run.cache, run.workbooks⟩ := by
  have stored := @storeInitKwargs_recorded ω κ
    (recordActiveCalcDocument world (if doc then some workbook else none)
      run.cache) (initKwargs.map fun entries => ⟨workbook, entries⟩)
  have changed := @recordActiveCalcDocument_recorded ω κ world run.cache
    (if doc then some workbook else none)
  rw [← recordWorkbook_aside aside] at stored
  have lastId := stored.1.trans changed.1
  have recorded := stored.2.1.trans changed.2.1
  constructor
  · rw [lastId, recorded]
    exact tracked.lastMem
  · rw [lastId, recorded]
    exact tracked.lastSome
  · rw [lastId, stored.2.2.1, changed.2.2.1]
    exact tracked.scopedDir
  · rw [recorded]
    exact tracked.covered
  · rw [lastId, recorded]
    intro single last isLast
    exact heldBy_aside aside (tracked.held single last isLast) (fits single last isLast)

theorem recordNamed [DecidableEq ω] (tracked : run.Tracked world)
    (named : isOpenclProbeSessionId session = false)
    (own : ∀ stale ∈ staleIds session (run.cache.recorded.insert session),
      world.workbookOf stale = world.workbookOf session)
    (completes : (recordedWith session run.cache.recorded).length = 1 →
      run.cache.Completes (world.workbookOf session) initKwargs doc) :
    Tracked world ⟨recordWorkbook world (some session)
        (world.workbookOf session) initKwargs doc run.cache,
      run.workbooks.insert (world.workbookOf session)⟩ := by
  have held : (recordedWith session run.cache.recorded).length = 1 →
      (recordWorkbook world (some session) (world.workbookOf session)
        initKwargs doc run.cache).HeldBy (world.workbookOf session) :=
    fun single => heldBy_named named (completes single)
  rw [recordWorkbook_named named] at held ⊢
  have stored := @storeInitKwargs_recorded ω κ { recordActiveCalcDocument world
        (if doc then some (world.workbookOf session) else none) run.cache with
      lastId := some session
      recorded := recordedWith session run.cache.recorded
      scopedDir := scopedDirFromCalcSessionId world (some session) }
    (initKwargs.map fun entries => ⟨world.workbookOf session, entries⟩)
  obtain ⟨lastId, recorded, scopedDir, -⟩ := stored
  constructor
  · rw [lastId, recorded]
    intro last isLast
    rw [← some.inj isLast]
    exact mem_recordedWith_self session _
  · rw [lastId]
    exact fun _ => nofun
  · rw [lastId, scopedDir]
  · rw [recorded]
    intro workbook isOpen
    rcases mem_insert_iff.mp isOpen with isNew | old
    · exact ⟨session, mem_recordedWith_self session _, isNew.symm⟩
    · obtain ⟨other, member, same⟩ := tracked.covered workbook old
      rcases mem_recordedWith_or member with stays | stale
      · exact ⟨other, stays, same⟩
      · exact ⟨session, mem_recordedWith_self session _, (own other stale).symm.trans same⟩
  · rw [lastId, recorded]
    intro single last isLast
    rw [← some.inj isLast]
    exact held single

theorem close [DecidableEq ω] (tracked : run.Tracked world) (session : Text) (order : SetOrder)
    (holds : run.cache.lastId ≠ some session →
      (run.cache.recorded.filter (· != session)).length = 1 → ∀ last ∈ run.cache.lastId,
          run.cache.HeldBy (world.workbookOf last)) :
    Tracked world ⟨clearActiveCalcSession world order (some session) run.cache,
      run.workbooks.filter (· ≠ world.workbookOf session)⟩ := by
  have covered : ∀ workbook ∈ run.workbooks.filter (· ≠ world.workbookOf session),
      ∃ other ∈ run.cache.recorded.filter (· != session), world.workbookOf other = workbook := by
    intro workbook isOpen
    obtain ⟨wasOpen, different⟩ := mem_filter.mp isOpen
    obtain ⟨other, member, same⟩ := tracked.covered workbook wasOpen
    refine ⟨other, mem_filter.mpr ⟨member, ?_⟩, same⟩
    rw [bne_iff_ne]
    intro isSession
    rw [isSession] at same
    exact of_decide_eq_true different same.symm
  rw [clearActiveCalcSession]
  by_cases isLast : run.cache.lastId = some session
  · rw [if_pos isLast]
    exact {
      lastMem := fun last first => order.mem_of_first first
      lastSome := order.first_ne_none
      scopedDir := rfl
      covered := covered
      held := fun _ _ _ => ⟨nofun, nofun⟩ }
  · rw [if_neg isLast]
    exact {
      lastMem := by
        intro last found
        refine mem_filter.mpr ⟨tracked.lastMem last found, ?_⟩
        rw [bne_iff_ne]
        intro same
        rw [same] at found
        exact isLast found
      lastSome := by
        intro nonempty
        apply tracked.lastSome
        intro empty
        apply nonempty
        rw [empty]
        rfl
      scopedDir := tracked.scopedDir
      covered := covered
      held := fun single last found =>
        ⟨(holds isLast single last found).doc, (holds isLast single last found).initKwargs⟩ }

/-- **Step.** A step that leaves nothing behind keeps the invariant. -/
theorem step [DecidableEq ω] (tracked : run.Tracked world)
    (leaves : run.LeavesNothing world action) :
    (run.step world action).Tracked world := by
  cases action with
  | record session initKwargs doc =>
    rw [SessionRun.LeavesNothing] at leaves
    rw [SessionRun.step]
    cases probe : isOpenclProbeSessionId session with
    | true =>
      rw [if_pos probe] at leaves
      refine tracked.recordAside (fun id isSession => ?_) leaves
      rwa [← some.inj isSession]
    | false =>
      rw [if_neg (by rw [probe]; exact false_ne_true)] at leaves
      exact tracked.recordNamed probe leaves.1 leaves.2
  | recordUnnamed workbook initKwargs doc =>
    refine tracked.recordAside (fun id impossible => ?_) leaves
    cases impossible
  | close session order => exact tracked.close session order leaves

end SessionRun.Tracked

def SessionRun.RecordsOpen (world : SessionWorld ω) (run : SessionRun ω κ) :
    Prop :=
  ∀ session ∈ run.cache.recorded, world.workbookOf session ∈ run.workbooks

theorem recorded_recordWorkbook {session : Option Text} :
    (recordWorkbook world session workbook initKwargs doc cache).recorded =
      match session with
      | some id =>
        if isOpenclProbeSessionId id then cache.recorded
        else recordedWith id cache.recorded
      | none => cache.recorded := by
  cases session with
  | none =>
    rw [recordWorkbook_aside (fun id impossible => by cases impossible),
      (storeInitKwargs_recorded _).2.1,
      (recordActiveCalcDocument_recorded _).2.1]
  | some id =>
    cases probe : isOpenclProbeSessionId id with
    | true =>
      rw [recordWorkbook_aside (fun other same => by
          rwa [← some.inj same]), (storeInitKwargs_recorded _).2.1,
        (recordActiveCalcDocument_recorded _).2.1]
      simp only [probe, if_true]
    | false =>
      rw [recordWorkbook_named probe, (storeInitKwargs_recorded _).2.1]
      simp only [probe, false_eq_true, if_false]

theorem recorded_clear : (clearActiveCalcSession world order (some session) cache).recorded =
      cache.recorded.filter (· != session) := by
  rw [clearActiveCalcSession]
  split <;> rfl

section Runs

variable [DecidableEq ω]

theorem SessionRun.RecordsOpen.step {run : SessionRun ω κ}
    (areOpen : run.RecordsOpen world) (whole : run.ClosesWhole world action) :
    (run.step world action).RecordsOpen world := by
  intro other member
  cases action with
  | record session initKwargs doc =>
    rw [SessionRun.step] at member ⊢
    rw [recorded_recordWorkbook] at member
    dsimp only at member
    split at member
    · rename_i probe
      rw [if_pos probe]
      exact areOpen other member
    · rename_i named
      rw [if_neg named]
      rcases mem_of_mem_recordedWith member with same | old
      · rw [same]
        exact mem_insert_self
      · exact mem_insert_of_mem (areOpen other old)
  | recordUnnamed workbook initKwargs doc =>
    rw [SessionRun.step] at member ⊢
    rw [recorded_recordWorkbook] at member
    exact areOpen other member
  | close session order =>
    rw [SessionRun.step] at member ⊢
    rw [recorded_clear] at member
    obtain ⟨wasRecorded, different⟩ := mem_filter.mp member
    refine mem_filter.mpr ⟨areOpen other wasRecorded, ?_⟩
    refine decide_eq_true fun same => ?_
    exact bne_iff_ne.mp different (whole other wasRecorded same)

/-- **The cache.** In a run whose steps leave nothing of one workbook to
another, an unambiguous session is served from one workbook in every state; and
if workbooks are also closed as a whole, from an open one. -/
theorem sessionCache_coherent (world : SessionWorld ω) (actions : List (SessionAction ω κ)) :
    (Along (SessionRun.step world) (SessionRun.LeavesNothing world) .init actions →
      Along (SessionRun.step world)
        (fun run action => (run.step world action).IsCoherent world) .init
        actions) ∧
    (Along (SessionRun.step world) (fun run action =>
        run.LeavesNothing world action ∧ run.ClosesWhole world action) .init
        actions →
      Along (SessionRun.step world)
        (fun run action => (run.step world action).ServesOpen world) .init
        actions) := by
  constructor
  · apply Along.of_invariant (SessionRun.Tracked world)
    · exact fun run action tracked leaves => tracked.step leaves
    · intro run action tracked leaves single
      obtain ⟨session, serves, -⟩ := (tracked.step leaves).serves single
      exact ⟨session, serves⟩
    · exact SessionRun.Tracked.init
  · apply Along.of_invariant (fun run => run.Tracked world ∧ run.RecordsOpen world)
    · exact fun run action holds leaves =>
        ⟨holds.1.step leaves.1, holds.2.step leaves.2⟩
    · intro run action holds leaves single
      obtain ⟨session, serves, only⟩ :=
        (holds.1.step leaves.1).serves single
      refine ⟨session, serves, (holds.2.step leaves.2) session ?_⟩
      rw [only]
      exact mem_singleton_self session
    · exact ⟨SessionRun.Tracked.init, nofun⟩

def namedWorkbooks : SessionWorld Text := ⟨id, fun _ => none, fun _ => true⟩

def firstWorkbook : Text := "calc:file:///a.ods".toList

def secondWorkbook : Text := "calc:file:///b.ods".toList

def closeFirst (initKwargs : Option (List (Text × ℕ))) (doc : Bool) : List (SessionAction Text ℕ) :=
  [.record firstWorkbook initKwargs doc, .record secondWorkbook none doc,
    .close firstWorkbook ⟨id, fun _ => .refl _⟩]

/-- With documents and no init kwargs the second workbook is served. -/
theorem closeFirst_coherent : Along (SessionRun.step namedWorkbooks) (fun run action =>
        (run.step namedWorkbooks action).IsCoherent namedWorkbooks)
      .init (closeFirst none true) := by
  apply (sessionCache_coherent namedWorkbooks (closeFirst none true)).1
  refine ⟨?_, ?_, ?_, trivial⟩
  · exact ⟨by decide +kernel, fun _ => ⟨nofun, fun _ => nofun⟩⟩
  · exact ⟨by decide +kernel, fun single => absurd single (by decide +kernel)⟩
  · intro _ _ last isLast
    cases isLast
    exact ⟨fun doc isDoc => (some.inj isDoc).symm, nofun⟩

/-- The first workbook's init kwargs are left to the second one. -/
theorem closeFirst_leavesKwargs : ¬ ∀ actions : List (SessionAction Text ℕ),
    Along (SessionRun.step namedWorkbooks) (fun run action =>
        (run.step namedWorkbooks action).IsCoherent namedWorkbooks)
      .init actions := by
  intro coherent
  obtain ⟨-, -, last, -⟩ := coherent (closeFirst (some [(['k'], 0)]) false)
  obtain ⟨session, serves⟩ := last (by decide +kernel)
  have isSession : session = secondWorkbook :=
    (some.inj serves.cached).symm
  have kept := serves.initKwargs ⟨firstWorkbook, [(['k'], 0)]⟩ rfl
  rw [isSession] at kept
  revert kept
  decide +kernel

end Runs

end WriterAgent.Scripting
