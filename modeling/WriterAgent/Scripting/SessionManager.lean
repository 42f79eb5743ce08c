import WriterAgent.Foundations.Text

/-!
# The cache of the active workbook session

`plugin/scripting/session_manager.py`: five variables of the process, written
on the main thread and read by a recalculation off it, which is not told which
workbook it is for.
-/

namespace WriterAgent.Scripting

open PyText

variable {ω κ : Type}

/-- Keyword arguments of a workbook's init script. -/
structure InitKwargs (ω κ : Type) where
  workbook : ω
  entries : List (Text × κ)

/-- What the session manager takes from outside: the workbook that a session
id is of (a URL, a stored id or a fresh one), the folder of a `file:` URL if
there is one, and whether a document can be referred to weakly. -/
structure SessionWorld (ω : Type) where
  workbookOf : Text → ω
  systemDirFromFileUrl : Text → Option Text
  referable : ω → Bool

structure SetOrder where
  arrange : List Text → List Text
  perm : ∀ items, (arrange items).Perm items

/-- The variables of the module. -/
structure SessionCache (ω κ : Type) where
  lastId : Option Text
  initKwargs : Option (InitKwargs ω κ)
  doc : Option ω
  scopedDir : Option Text
  recorded : List Text

def SessionCache.init : SessionCache ω κ := ⟨none, none, none, none, []⟩

def openclProbeMark : Text := "opencl/cl-test.ods".toList

def isOpenclProbeSessionId (session : Text) : Bool :=
  !session.isEmpty &&
    decide (openclProbeMark <:+: replaceChar '\\' '/' session)

def calcMark : Text := "calc:".toList

def unsavedMark : Text := "calc:unsaved:".toList

def isUnsavedId (session : Text) : Bool := unsavedMark.isPrefixOf session

/-- The id without `calc:` in front and `:init` behind. -/
def sessionUrl (session : Text) : Text :=
  let url := if calcMark.isPrefixOf session then session.drop calcMark.length
    else session
  if ":init".toList.isSuffixOf url then url.take (url.length - 5) else url

def scopedDirFromCalcSessionId (world : SessionWorld ω) (session : Option Text) : Option Text :=
  match session with
  | none => none
  | some session =>
    if session.isEmpty then none
    else if "file:".toList.isPrefixOf (sessionUrl session) then
      world.systemDirFromFileUrl (sessionUrl session)
    else none

def recordActiveCalcDocument (world : SessionWorld ω) (doc : Option ω)
    (cache : SessionCache ω κ) : SessionCache ω κ :=
  match doc with
  | none => cache
  | some doc => { cache with doc := if world.referable doc then some doc else none }

def storeInitKwargs (initKwargs : Option (InitKwargs ω κ))
    (cache : SessionCache ω κ) : SessionCache ω κ :=
  match initKwargs with
  | none => cache
  | some kwargs =>
    if kwargs.entries.isEmpty then cache
    else { cache with initKwargs := some kwargs }

/-- The recorded ids that an id makes stale: the fallback ids of workbooks
that are not saved. -/
def staleIds (session : Text) (recorded : List Text) : List Text :=
  recorded.filter fun other => isUnsavedId other &&
    if isUnsavedId session then other != session else true

def recordedWith (session : Text) (recorded : List Text) : List Text :=
  let added := recorded.insert session
  added.filter fun other => !(staleIds session added).contains other

def recordActiveCalcSession (world : SessionWorld ω) (session : Option Text)
    (initKwargs : Option (InitKwargs ω κ)) (doc : Option ω)
    (cache : SessionCache ω κ) : SessionCache ω κ :=
  let cache := recordActiveCalcDocument world doc cache
  match session with
  | none => storeInitKwargs initKwargs cache
  | some session =>
    if isOpenclProbeSessionId session then storeInitKwargs initKwargs cache
    else storeInitKwargs initKwargs { cache with
      lastId := some session
      recorded := recordedWith session cache.recorded
      scopedDir := scopedDirFromCalcSessionId world (some session) }

def offMainCalcSessionIsUnambiguous (cache : SessionCache ω κ) : Bool :=
  cache.recorded.length == 1

def getCachedCalcSessionId (cache : SessionCache ω κ) : Option Text :=
  cache.lastId

def getCachedCalcInitKwargs (cache : SessionCache ω κ) : Option (InitKwargs ω κ) :=
  cache.initKwargs

def getCachedCalcScopedDir (cache : SessionCache ω κ) : Option Text :=
  if 1 < cache.recorded.length then none else cache.scopedDir

def getCachedCalcDocument (alive : ω → Bool) (cache : SessionCache ω κ) : Option ω :=
  if 1 < cache.recorded.length then none else cache.doc.filter alive

/-- `next(iter(recorded), None)`. -/
def SetOrder.first (order : SetOrder) (recorded : List Text) : Option Text :=
  (order.arrange recorded).head?

def clearActiveCalcSession (world : SessionWorld ω) (order : SetOrder)
    (session : Option Text) (cache : SessionCache ω κ) : SessionCache ω κ :=
  match session with
  | none => .init
  | some session =>
    let recorded := cache.recorded.filter (· != session)
    if cache.lastId = some session then
      { lastId := order.first recorded
        initKwargs := none
        doc := none
        scopedDir :=
          scopedDirFromCalcSessionId world (order.first recorded)
        recorded := recorded }
    else { cache with recorded := recorded }

end WriterAgent.Scripting
