import WriterAgent.Foundations.Runs
import WriterAgent.Scripting.DocumentScripts

/-!
# No script is clobbered

A message of the picker asks for a change of one script of one store.  Where the
document is read and written as it should be, a run of messages changes nothing
else, and what could not be done leaves every script as it was.
-/

namespace WriterAgent.Scripting

open PyText Framework Option

inductive ScriptStore where
  | user
  | document
  deriving DecidableEq

/-- A change of one script: a code to put under the name, or none to delete it.
A request may replace a script that is there, and one that is refused may go to
My Scripts instead. -/
structure ScriptRequest where
  store : ScriptStore
  name : Text
  code : Option Text
  replaces : Bool
  fallsBack : Bool

def storeOf (origin : Text) : ScriptStore :=
  if strip origin = scriptOriginDocument then .document else .user

def ScriptMessage.request : ScriptMessage → Option ScriptRequest
  | .requestScripts => none
  | .selectScript _ => none
  | .saveScript name code origin =>
    some ⟨storeOf origin, strip name, some (scriptCode code), true, true⟩
  | .attachScript name code overwrite =>
    some ⟨.document, strip name, some (scriptCode code), overwrite, false⟩
  | .copyScriptToUser name code overwrite =>
    some ⟨.user, strip name, some (scriptCode code), overwrite, false⟩
  | .deleteScript name origin => some ⟨storeOf origin, strip name, none, true, false⟩

variable {faults : DocumentFaults} {property : Option Text}
  {scripts : PyDict Text Text} {origin name : Text} {request : ScriptRequest}

namespace ScriptRequest

variable (request : ScriptRequest) (scripts : PyDict Text Text)

def apply : PyDict Text Text :=
  match request.code with
  | some code => scripts.set request.name code
  | none => scripts.pop request.name

/-- The name is not empty, and no script is in the way. -/
def Allowed : Prop :=
  request.name ≠ [] ∧ (scripts.get? request.name = none ∨ request.replaces = true)

theorem get?_apply {other : Text} (different : other ≠ request.name) :
    (request.apply scripts).get? other = scripts.get? other := by
  rw [apply]
  split
  · rw [PyDict.get?_set, if_neg different]
  · rw [PyDict.get?_pop, if_neg different]

end ScriptRequest

variable {ν : Type} (env : ScriptEnv ν)

def Refused (faults : DocumentFaults) (scripts : PyDict Text Text) : Prop :=
  maxDocumentScriptsBytes < utf8Length (envelopeToJson scripts) ∨ faults.readonly = true ∨
    faults.write = .raised

instance (faults : DocumentFaults) (scripts : PyDict Text Text) :
    Decidable (Refused faults scripts) :=
  inferInstanceAs (Decidable (_ ∨ _))

def writtenProperty (faults : DocumentFaults) (property : Option Text)
    (scripts : PyDict Text Text) : Option Text :=
  if faults.write = .stored then some (envelopeToJson scripts) else property

theorem setDocumentScripts_refused {faults : DocumentFaults} {property : Option Text}
    {scripts : PyDict Text Text} (refused : Refused faults scripts) :
    ∃ notice, setDocumentScripts faults property scripts = .error notice := by
  rw [setDocumentScripts]
  split_ifs with large readonly
  · exact ⟨_, rfl⟩
  · exact ⟨_, rfl⟩
  · have raised : faults.write = .raised :=
      (refused.resolve_left large).resolve_left readonly
    rw [raised]
    exact ⟨_, rfl⟩

theorem setDocumentScripts_accepted (accepted : ¬ Refused faults scripts) :
    setDocumentScripts faults property scripts = .ok (writtenProperty faults property scripts) := by
  rw [Refused, not_or, not_or] at accepted
  obtain ⟨small, writable, noRaise⟩ := accepted
  rw [setDocumentScripts]
  rw [if_neg small, if_neg writable, writtenProperty]
  cases write : faults.write with
  | stored => rfl
  | dropped => rfl
  | raised => exact absurd write noRaise

/-- What the property holds: nothing, an envelope, or a text that is no
envelope. -/
def storedScripts (property : Option Text) : Option (PyDict Text Text) :=
  match property with
  | none => some .empty
  | some raw => if strip raw = [] then some .empty else envelopeFromJson env raw

theorem getDocumentScripts_of_stored (stored : storedScripts env property = some scripts) :
    getDocumentScripts env property = scripts := by
  cases property with
  | none => exact some.inj stored
  | some raw =>
    rw [storedScripts] at stored
    rw [getDocumentScripts]
    split_ifs at stored with blank
    · rw [envelopeFromJson, if_pos blank]
      exact some.inj stored
    · rw [stored]
      rfl

def readScripts (faults : DocumentFaults) (document : ScriptDocument) : PyDict Text Text :=
  getDocumentScripts env (faults.read document.property)

def isFailure (status : Option StatusTexts) : Bool := status.any (·.error.isSome)

/-- The message asks the document of the session for a change that nothing is in
the way of. -/
structure AsksDocument (faults : DocumentFaults) (message : ScriptMessage) (stores : ScriptStores)
    (request : ScriptRequest) (document : ScriptDocument) : Prop where
  asked : message.request = some request
  inDocument : request.store = .document
  isOpen : stores.document = some document
  allowed : request.Allowed (readScripts env faults document)

/-- What becomes of the stores: nothing changes, My Scripts change as asked for, a
save that the document refuses goes to My Scripts, or the document is written. -/
inductive Handled (faults : DocumentFaults) (message : ScriptMessage) (stores : ScriptStores) :
    ScriptStores → Bool → Prop
  | unchanged (failed : Bool) (reason : ∀ request document, message.request = some request →
        request.store = .document → stores.document = some document → failed = true) :
      Handled faults message stores stores failed
  | user (request : ScriptRequest) (asked : message.request = some request)
      (inUser : request.store = .user) (allowed : request.Allowed stores.user.scripts) :
      Handled faults message stores
        { stores with user := .store (request.apply stores.user.scripts) } false
  | fallback (request : ScriptRequest) (document : ScriptDocument)
      (asks : AsksDocument env faults message stores request document)
      (refused : Refused faults (request.apply (readScripts env faults document)))
      (fallsBack : request.fallsBack = true) :
      Handled faults message stores
        { stores with user := .store (request.apply stores.user.scripts) } true
  | document (request : ScriptRequest) (document : ScriptDocument)
      (asks : AsksDocument env faults message stores request document)
      (accepted : ¬ Refused faults (request.apply (readScripts env faults document))) :
      Handled faults message stores
        { stores with document := some ⟨writtenProperty faults document.property
            (request.apply (readScripts env faults document))⟩ } false

theorem storeOf_document (isDocument : strip origin = scriptOriginDocument) :
    storeOf origin = .document := if_pos isDocument

theorem storeOf_user (noDocument : ¬ strip origin = scriptOriginDocument) :
    storeOf origin = .user := if_neg noDocument

variable {env}

theorem attachDocumentScript_cases (faults : DocumentFaults) (document : ScriptDocument)
    {request : ScriptRequest} {code : Text} (trimmed : strip request.name = request.name)
    (puts : request.code = some code) :
    let result := attachDocumentScript env faults document.property request.name code
      request.replaces
    (¬ request.Allowed (readScripts env faults document) ∧ ∃ notice, result = .error notice) ∨
      (request.Allowed (readScripts env faults document) ∧
        result = setDocumentScripts faults document.property
          (request.apply (readScripts env faults document))) := by
  intro result
  have written : request.apply (readScripts env faults document) =
      (readScripts env faults document).set request.name code := by
    rw [ScriptRequest.apply, puts]
  rw [written]
  simp only [result, attachDocumentScript, trimmed]
  split_ifs with noName inTheWay
  · exact Or.inl ⟨fun allowed => allowed.1 noName, _, rfl⟩
  · refine Or.inl ⟨fun allowed => ?_, _, rfl⟩
    rw [Bool.and_eq_true, PyDict.contains, isSome_iff_ne_none, Bool.not_eq_true'] at inTheWay
    rcases allowed.2 with absent | replaces
    · exact inTheWay.1 absent
    · rw [inTheWay.2] at replaces
      cases replaces
  · refine Or.inr ⟨⟨noName, ?_⟩, rfl⟩
    rw [Bool.and_eq_true, not_and_or, PyDict.contains, Bool.not_eq_true', Bool.not_eq_false,
      isSome_iff_ne_none, not_not] at inTheWay
    exact inTheWay

theorem handled_document {faults : DocumentFaults} {message : ScriptMessage}
    {stores : ScriptStores} {request : ScriptRequest} {document : ScriptDocument}
    (asks : AsksDocument env faults message stores request document)
    {result : Except Notice (Option Text)}
    (attempted : result = setDocumentScripts faults document.property
      (request.apply (readScripts env faults document))) :
    match (motive := Except Notice (Option Text) → Prop) result with
    | .error _ => Handled env faults message stores
        (if request.fallsBack then
            { stores with user := .store (request.apply stores.user.scripts) }
          else stores) true
    | .ok property => Handled env faults message stores
        { stores with document := some ⟨property⟩ } false := by
  by_cases refused : Refused faults (request.apply (readScripts env faults document))
  · obtain ⟨notice, isError⟩ := @setDocumentScripts_refused faults document.property _ refused
    rw [attempted, isError]
    split_ifs with fallsBack
    · exact .fallback request document asks refused fallsBack
    · exact .unchanged true fun _ _ _ _ _ => rfl
  · rw [attempted, setDocumentScripts_accepted refused]
    exact .document request document asks refused

theorem Handled.failed {faults : DocumentFaults} {message : ScriptMessage}
    {stores : ScriptStores} : Handled env faults message stores stores true :=
  .unchanged true fun _ _ _ _ _ => rfl

/-- **Handling.** Every message is handled in one of the four ways. -/
theorem handled (faults : DocumentFaults) (message : ScriptMessage) (stores : ScriptStores) :
    Handled env faults message stores (handleEditorScriptMessage env faults stores message).1
      (isFailure (handleEditorScriptMessage env faults stores message).2) := by
  obtain ⟨user, opened⟩ := stores
  cases message with
  | requestScripts | selectScript => exact .unchanged _ nofun
  | saveScript name code origin =>
    let request : ScriptRequest := ⟨storeOf origin, strip name, some (scriptCode code), true, true⟩
    simp only [handleEditorScriptMessage]
    split_ifs with noName isDocument
    · exact .failed
    · cases opened with
      | none => exact .failed
      | some document =>
        have cases := @attachDocumentScript_cases _ env faults document request
          (scriptCode code) (strip_strip name) rfl
        dsimp only [saveDocumentScript]
        generalize attachDocumentScript env faults document.property (strip name)
          (scriptCode code) true = result at cases ⊢
        rcases cases with ⟨forbidden, -⟩ | ⟨allowed, attempted⟩
        · exact absurd ⟨noName, Or.inr rfl⟩ forbidden
        · have outcome := @handled_document _ env faults (.saveScript name code origin)
            ⟨user, some document⟩ request document
            ⟨rfl, storeOf_document isDocument, rfl, allowed⟩ result attempted
          cases result with
          | error | ok => exact outcome
    · exact .user request rfl (storeOf_user isDocument) ⟨noName, Or.inr rfl⟩
  | attachScript name code overwrite =>
    let request : ScriptRequest := ⟨.document, strip name, some (scriptCode code), overwrite, false⟩
    simp only [handleEditorScriptMessage]
    cases opened with
    | none => exact .failed
    | some document =>
      have cases := @attachDocumentScript_cases _ env faults document request
        (scriptCode code) (strip_strip name) rfl
      dsimp only
      generalize attachDocumentScript env faults document.property (strip name)
        (scriptCode code) overwrite = result at cases ⊢
      rcases cases with ⟨-, notice, rfl⟩ | ⟨allowed, attempted⟩
      · exact .failed
      · have outcome := @handled_document _ env faults (.attachScript name code overwrite)
          ⟨user, some document⟩ request document ⟨rfl, rfl, rfl, allowed⟩ result attempted
        cases result with
        | error | ok => exact outcome
  | copyScriptToUser name code overwrite =>
    simp only [handleEditorScriptMessage]
    split_ifs with noName inTheWay
    · exact .failed
    · exact .failed
    · refine .user ⟨.user, strip name, some (scriptCode code), overwrite, false⟩ rfl rfl
        ⟨noName, ?_⟩
      rw [Bool.and_eq_true, not_and_or, PyDict.contains, Bool.not_eq_true', Bool.not_eq_false,
        isSome_iff_ne_none, not_not] at inTheWay
      exact inTheWay
  | deleteScript name origin =>
    let request : ScriptRequest := ⟨storeOf origin, strip name, none, true, false⟩
    simp only [handleEditorScriptMessage]
    split_ifs with noName isDocument
    · exact .failed
    · cases opened with
      | none => exact .failed
      | some document =>
        have allowed : request.Allowed (readScripts env faults document) :=
          ⟨noName, Or.inr rfl⟩
        have attempted : deleteDocumentScript env faults document.property (strip name) =
            setDocumentScripts faults document.property
              (request.apply (readScripts env faults document)) := by
          rw [deleteDocumentScript, ScriptRequest.apply, readScripts]
        dsimp only
        generalize deleteDocumentScript env faults document.property (strip name) = result
          at attempted ⊢
        have outcome := @handled_document _ env faults (.deleteScript name origin)
          ⟨user, some document⟩ request document
          ⟨rfl, storeOf_document isDocument, rfl, allowed⟩ result attempted
        cases result with
        | error | ok => exact outcome
    · exact .user request rfl (storeOf_user isDocument) ⟨noName, Or.inr rfl⟩

variable (env)

def ScriptStores.script (stores : ScriptStores) (name : Text) : ScriptStore → Option Text
  | .user => stores.user.scripts.get? name
  | .document => stores.document.bind fun document =>
    (getDocumentScripts env document.property).get? name

/-- A request stands where it can do no harm.  A save that the document refuses
finds no other script in My Scripts.  A document that takes the write was read as
it is, stores the write, and the repair leaves the envelope alone. -/
structure Guarded (faults : DocumentFaults) (message : ScriptMessage) (stores : ScriptStores) :
    Prop where
  fallback : ∀ request document, AsksDocument env faults message stores request document →
    Refused faults (request.apply (readScripts env faults document)) →
      request.fallsBack = true → ∀ code, stores.user.scripts.get? request.name = some code →
        request.code = some code
  document : ∀ request document, AsksDocument env faults message stores request document →
    ¬ Refused faults (request.apply (readScripts env faults document)) → faults.write = .stored ∧
        storedScripts env document.property = some (readScripts env faults document) ∧
        ¬ HasLatexClash env.readers.isWord
          (envelopeToJson (request.apply (readScripts env faults document)))

/-- A message did no harm.  Only the script it asks for changed, in the store it
asks for or, for a refused save, in My Scripts; a script that was there was
replaced only where the request may; a failure loses and changes no script; a text
that is no envelope stays; and the document holds what was written. -/
structure Unclobbered (faults : DocumentFaults) (message : ScriptMessage)
    (before after : ScriptStores) (failed : Bool) : Prop where
  framed : ∀ store name, after.script env name store ≠ before.script env name store →
    ∃ request, message.request = some request ∧ request.name = name ∧
      (request.store = store ∨ request.store = .document ∧ store = .user ∧
        request.fallsBack = true ∧ failed = true)
  kept : ∀ store name code, before.script env name store = some code →
    after.script env name store ≠ some code →
      ∃ request, message.request = some request ∧ request.store = store ∧
        request.name = name ∧ request.replaces = true
  undone : failed = true → ∀ store name code, before.script env name store = some code →
    after.script env name store = some code
  unread : ∀ document, before.document = some document →
    storedScripts env document.property = none → after.document = some document
  written : failed = false → ∀ request document, message.request = some request →
    request.store = .document → before.document = some document →
      ∃ document', after.document = some document' ∧ getDocumentScripts env document'.property =
          request.apply (readScripts env faults document)

variable {env}

theorem get?_store_apply (user : UserScripts) (other : name ≠ request.name) :
    (UserScripts.store (request.apply user.scripts)).scripts.get? name = user.scripts.get? name :=
  user.validated.get?_validateScripts (request.get?_apply user.scripts other)

theorem store_apply_same {user : UserScripts} {code : Text}
    (present : user.scripts.get? request.name = some code) (puts : request.code = some code) :
    (UserScripts.store (request.apply user.scripts)).scripts = user.scripts := by
  have unchanged : request.apply user.scripts = user.scripts := by
    rw [ScriptRequest.apply, puts]
    exact PyDict.set_eq_self present
  change validateScripts (request.apply user.scripts) = user.scripts
  rw [unchanged, user.validated.validateScripts_eq]

/-- **One message.** Where the request stands where it can do no harm, it does
none. -/
theorem Handled.unclobbered {message : ScriptMessage} {before after : ScriptStores} {failed : Bool}
    (guarded : Guarded env faults message before)
    (handled : Handled env faults message before after failed) :
    Unclobbered env faults message before after failed := by
  cases handled with
  | unchanged failed reason =>
    refine ⟨fun _ _ changed => absurd rfl changed,
      fun _ _ _ present changed => absurd present changed, fun _ _ _ _ present => present,
      fun _ isOpen _ => isOpen, fun noFailure request document asked inDocument isOpen => ?_⟩
    rw [reason request document asked inDocument isOpen] at noFailure
    cases noFailure
  | user request asked inUser allowed =>
    refine ⟨fun store name changed => ?_, fun store name code present changed => ?_, nofun,
      fun _ isOpen _ => isOpen, fun _ other _ asked' inDocument _ => ?_⟩
    · cases store with
      | user =>
        have same : name = request.name := by
          by_contra other
          exact changed (get?_store_apply before.user other)
        exact ⟨request, asked, same.symm, Or.inl inUser⟩
      | document => exact absurd rfl changed
    · cases store with
      | user =>
        have same : name = request.name := by
          by_contra other
          exact changed ((get?_store_apply before.user other).trans present)
        have inTheWay : before.user.scripts.get? request.name ≠ none := by
          rw [← same, show before.user.scripts.get? name = some code from present]
          simp
        exact ⟨request, asked, inUser, same.symm, allowed.2.resolve_left inTheWay⟩
      | document => exact absurd present changed
    · rw [asked] at asked'
      cases asked'
      rw [inUser] at inDocument
      cases inDocument
  | fallback request document asks refused fallsBack =>
    -- What is in My Scripts under the name is what the refused save put there.
    have kept : ∀ name code, before.user.scripts.get? name = some code →
        (UserScripts.store (request.apply before.user.scripts)).scripts.get? name = some code := by
      intro name code present
      by_cases same : name = request.name
      · rw [same] at present ⊢
        rw [store_apply_same present
          (guarded.fallback request document asks refused fallsBack code present), present]
      · rw [get?_store_apply before.user same, present]
    refine ⟨fun store name changed => ?_, fun store name code present changed => ?_,
      fun _ store name code present => ?_, fun _ isOpen _ => isOpen, nofun⟩
    · cases store with
      | user =>
        have same : name = request.name := by
          by_contra other
          exact changed (get?_store_apply before.user other)
        exact ⟨request, asks.asked, same.symm, Or.inr ⟨asks.inDocument, rfl, fallsBack, rfl⟩⟩
      | document => exact absurd rfl changed
    · cases store with
      | user => exact absurd (kept name code present) changed
      | document => exact absurd present changed
    · cases store with
      | user => exact kept name code present
      | document => exact present
  | document request document asks accepted =>
    obtain ⟨stored, readAsStored, noClash⟩ := guarded.document request document asks accepted
    have written : getDocumentScripts env (writtenProperty faults document.property
        (request.apply (readScripts env faults document))) =
          request.apply (readScripts env faults document) := by
      rw [writtenProperty, if_pos stored, getDocumentScripts,
        envelopeFromJson_envelopeToJson env noClash]
      rfl
    have asBefore (name : Text) : before.script env name .document =
        (readScripts env faults document).get? name := by
      rw [ScriptStores.script, asks.isOpen, bind_some,
        getDocumentScripts_of_stored env readAsStored]
    have asAfter (name : Text) : ScriptStores.script env ⟨before.user, some ⟨writtenProperty faults
        document.property (request.apply (readScripts env faults document))⟩⟩ name .document =
          (request.apply (readScripts env faults document)).get? name := by
      rw [ScriptStores.script, bind_some, written]
    refine ⟨fun store name changed => ?_, fun store name code present changed => ?_, nofun,
      fun other isOpen unread => ?_, fun _ other document' asked _ isOpen => ?_⟩
    · cases store with
      | user => exact absurd rfl changed
      | document =>
        have same : name = request.name := by
          by_contra other
          rw [asBefore, asAfter, request.get?_apply _ other] at changed
          exact changed rfl
        exact ⟨request, asks.asked, same.symm, Or.inl asks.inDocument⟩
    · cases store with
      | user => exact absurd present changed
      | document =>
        have same : name = request.name := by
          by_contra other
          rw [asAfter, request.get?_apply _ other, ← asBefore] at changed
          exact changed present
        rw [asBefore, same] at present
        have inTheWay : (readScripts env faults document).get? request.name ≠ none := by
          rw [present]
          simp
        exact ⟨request, asks.asked, asks.inDocument, same.symm,
          asks.allowed.2.resolve_left inTheWay⟩
    · rw [asks.isOpen] at isOpen
      cases isOpen
      rw [readAsStored] at unread
      cases unread
    · rw [asks.asked] at asked
      cases asked
      rw [asks.isOpen] at isOpen
      cases isOpen
      exact ⟨_, rfl, written⟩

variable (env)

def pickerStep (stores : ScriptStores) (input : DocumentFaults × ScriptMessage) : ScriptStores :=
  (handleEditorScriptMessage env input.1 stores input.2).1

def pickerFails (stores : ScriptStores) (input : DocumentFaults × ScriptMessage) : Bool :=
  isFailure (handleEditorScriptMessage env input.1 stores input.2).2

def Harmless (stores : ScriptStores) (input : DocumentFaults × ScriptMessage) : Prop :=
  Unclobbered env input.1 input.2 stores (pickerStep env stores input)
    (pickerFails env stores input)

variable {env}

theorem script_foldl_of_unnamed {stores : ScriptStores}
    {run : List (DocumentFaults × ScriptMessage)}
    (harmless : Along (pickerStep env) (Harmless env) stores run)
    (unnamed : ∀ input ∈ run, ∀ request, input.2.request = some request → request.name ≠ name)
    (store : ScriptStore) :
    (run.foldl (pickerStep env) stores).script env name store = stores.script env name store := by
  induction run generalizing stores with
  | nil => rfl
  | cons input rest ih =>
    obtain ⟨first, later⟩ := harmless
    have step : (pickerStep env stores input).script env name store =
        stores.script env name store := by
      by_contra changed
      obtain ⟨request, asked, named, -⟩ := first.framed store name changed
      exact unnamed input List.mem_cons_self request asked named
    rw [List.foldl_cons, ih later fun other member =>
      unnamed other (List.mem_cons_of_mem _ member), step]

/-- **Script stores.** In a run of messages that each stand where they can do no
harm, none does, and a script that no message names is there as before. -/
theorem scripts_unclobbered {ν : Type} (env : ScriptEnv ν) (stores : ScriptStores)
    (run : List (DocumentFaults × ScriptMessage))
    (guarded : Along (pickerStep env) (fun stores input => Guarded env input.1 input.2 stores)
      stores run) :
    Along (pickerStep env) (Harmless env) stores run ∧
      ∀ name, (∀ input ∈ run, ∀ request, input.2.request = some request → request.name ≠ name) →
        ∀ store, (run.foldl (pickerStep env) stores).script env name store =
          stores.script env name store := by
  have harmless : Along (pickerStep env) (Harmless env) stores run :=
    Along.of_invariant (fun _ => True) (fun _ _ _ _ => trivial) (fun before input _ allowed =>
        Handled.unclobbered allowed (handled input.1 input.2 before)) trivial guarded
  exact ⟨harmless, fun _ unnamed store => script_foldl_of_unnamed harmless unnamed store⟩

/-- One number, and a document without scripts next to shipped My Scripts. -/
def oneParts : JsonParts ℤ where
  number word := if word = ['1'] then some 1 else none
  halves _ := Char.ofNat 0xFFFD

def oneEnv : ScriptEnv ℤ where
  parts := oneParts
  readers := { unusedReaders with loads := jsonLoads oneParts }
  isOne n := n == 1
  translate := id
  loads_eq := rfl
  readsOne := ⟨1, rfl, rfl⟩

def freshStores : ScriptStores := ⟨.store .empty, some ⟨none⟩⟩

def writable : DocumentFaults := ⟨false, false, .stored⟩
def readOnly : DocumentFaults := ⟨false, true, .stored⟩

def twoSaves : List (DocumentFaults × ScriptMessage) :=
  [(writable, .saveScript ['a'] (some ['x']) scriptOriginDocument),
    (readOnly, .saveScript ['b'] (some ['y']) scriptOriginDocument)]

theorem not_hasLatexClash {isWord : Char → Bool} {s : Text} (noBackslash : '\\' ∉ s) :
    ¬ HasLatexClash isWord s := by
  rintro ⟨front, c, back, rfl, clash⟩
  rw [latexClash?.eq_def] at clash
  split at clash
  · rename_i same
    cases same
    exact noBackslash (List.mem_append_right _ List.mem_cons_self)
  · exact clash rfl

theorem guarded_twoSaves : Along (pickerStep oneEnv)
    (fun stores input => Guarded oneEnv input.1 input.2 stores) freshStores twoSaves := by
  have small : ¬ Refused writable (PyDict.empty.set ['a'] ['x']) := by decide +kernel
  have second : (pickerStep oneEnv freshStores
      (writable, .saveScript ['a'] (some ['x']) scriptOriginDocument)).user.scripts.get? ['b'] =
        none := by
    decide +kernel
  refine ⟨⟨?_, ?_⟩, ⟨?_, ?_⟩, trivial⟩
  · rintro request document ⟨asked, -, isOpen, -⟩ refused
    cases asked
    cases isOpen
    exact absurd refused small
  · rintro request document ⟨asked, -, isOpen, -⟩ -
    cases asked
    cases isOpen
    exact ⟨rfl, rfl, not_hasLatexClash (by decide +kernel)⟩
  · rintro request document ⟨asked, -, -, -⟩ - - code present
    cases asked
    cases second.symm.trans present
  · rintro request document - accepted
    exact absurd (Or.inr (Or.inl rfl)) accepted

theorem twoSaves_unclobbered : Along (pickerStep oneEnv) (Harmless oneEnv) freshStores twoSaves :=
  (scripts_unclobbered oneEnv freshStores twoSaves guarded_twoSaves).1

theorem get?_saveUserScript {code : Text} (noSample : name ≠ sampleName)
    (noUniversal : name ≠ universalName) (user : UserScripts) :
    (saveUserScript name code user).scripts.get? name = some code := by
  change (validateScripts (user.scripts.set name code)).get? name = some code
  rcases validateScripts_cases (user.scripts.set name code) with ⟨_, _, _, whole⟩ | ⟨-, whole⟩
  all_goals simp [whole, noSample, noUniversal]

/-- A save that a read-only document refuses takes the place of another script. -/
theorem fallback_clobbers : ¬ ∀ (env : ScriptEnv ℤ) (stores : ScriptStores)
    (run : List (DocumentFaults × ScriptMessage)),
      Along (pickerStep env) (Harmless env) stores run := by
  intro all
  obtain ⟨harmless, -⟩ := all oneEnv ⟨.store (.ofPairs [(['a'], ['x'])]), some ⟨none⟩⟩
    [(readOnly, .saveScript ['a'] (some ['y']) scriptOriginDocument)]
  have kept := harmless.undone (by decide +kernel) .user ['a'] ['x'] (by decide +kernel)
  change (saveUserScript ['a'] ['y'] _).scripts.get? ['a'] = some ['x'] at kept
  rw [get?_saveUserScript (by decide) (by decide)] at kept
  cases kept

end WriterAgent.Scripting
