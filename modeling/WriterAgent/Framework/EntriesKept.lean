import WriterAgent.Foundations.Runs
import WriterAgent.Framework.ConfigThreads

/-!
# Entries of the configuration are kept

A call that changes one entry writes the whole dictionary it has read.
-/

namespace WriterAgent.Framework

open PyText Scripting Option

variable {ω : Type}

def storedDict (dict : ConfigDict) (file : Option (ConfigFile ω)) : PyDict Text Text :=
  readDict dict (validDict dict ((file.map (·.dicts dict)).getD .missing))

theorem validated_default : Validated ConfigDict.scripts.default where
  noSample := by decide +kernel
  universal := ⟨_, (PyDict.get?_set ..).trans (if_pos rfl), isLegacy_universalSample⟩

variable {edit : DictEdit} {entries : PyDict Text Text}
  {file : Option (ConfigFile ω)} {phase : ConfigPhase ω}

theorem validated_storedDict (file : Option (ConfigFile ω)) :
    Validated (storedDict .scripts file) := by
  rw [storedDict]
  cases (file.map (·.dicts .scripts)).getD .missing with
  | missing => exact validated_default
  | other => exact validated_validateScripts .empty
  | entries dict => exact validated_validateScripts dict

theorem readDict_writtenDict (dict : ConfigDict) (setting : DictSetting) :
    readDict dict (validDict dict (writtenDict dict setting)) =
      readDict dict (validDict dict setting) := by
  have scripts (value : PyDict Text Text) (validated : Validated value) :
      readDict .scripts (validDict .scripts
        (if value.entries = ConfigDict.scripts.default.entries then .missing else .entries value)) =
          value := by
    split_ifs with isDefault
    · exact (PyDict.ext isDefault).symm
    · exact validated.validateScripts_eq
  cases dict with
  | apiKeys =>
    cases setting with
    | missing => rfl
    | other => rfl
    | entries value =>
      change readDict .apiKeys (validDict .apiKeys
        (if value.entries = ConfigDict.apiKeys.default.entries then .missing
          else .entries value)) = value
      split_ifs with isDefault
      · exact (PyDict.ext isDefault).symm
      · rfl
  | scripts =>
    cases setting with
    | missing => rfl
    | other => exact scripts (validateScripts .empty) (validated_validateScripts .empty)
    | entries value => exact scripts (validateScripts value) (validated_validateScripts value)

theorem storedDict_written (dict : ConfigDict) (file : ConfigFile ω) (others : ω) :
    storedDict dict (some (file.written others)) = storedDict dict (some file) :=
  readDict_writtenDict dict (file.dicts dict)

variable (env : OtherSettings ω)

theorem storedDict_loadConfigDict (dict : ConfigDict) (file : Option (ConfigFile ω)) :
    storedDict dict (some (loadConfigDict env file)) = storedDict dict file := by
  cases file with
  | none => rfl
  | some file => rfl

theorem storedDict_loadFile (luck : ConfigLuck) (file : Option (ConfigFile ω)) (dict : ConfigDict) :
    storedDict dict (loadFile env luck file).2 = storedDict dict file := by
  have written (others : ω) :
      storedDict dict (some ((loadConfigDict env file).written others)) = storedDict dict file := by
    rw [storedDict_written, storedDict_loadConfigDict]
  rw [loadFile]
  split
  · rfl
  · split_ifs
    · rfl
    · exact written _
  · split_ifs
    · rfl
    · exact written _

/-- Validation leaves the entry as it is written. -/
def Survives (edit : DictEdit) : Prop :=
  edit.dict = .scripts → (edit.key = sampleName → edit.value = none) ∧
    (edit.key = universalName → ∃ code, edit.value = some code ∧ isLegacy code = false)

/-- The file that is left holds the entry, and the other entries as before. -/
def Writes (edit : Option DictEdit) (before after : Option (ConfigFile ω)) : Prop :=
  ∀ dict name, (∀ own, edit = some own → own.dict = dict → own.key ≠ name) ∧
      (storedDict dict after).get? name = (storedDict dict before).get? name ∨
    ∃ own, edit = some own ∧ own.dict = dict ∧ own.key = name ∧
      (storedDict dict after).get? name = own.value

theorem DictEdit.get?_apply (edit : DictEdit) (entries : PyDict Text Text) (name : Text) :
    (edit.apply entries).get? name =
      if name = edit.key then edit.value else entries.get? name := by
  rw [DictEdit.apply]
  split
  · next value puts => rw [PyDict.get?_set, puts]
  · next puts => rw [PyDict.get?_pop, puts]

theorem get?_validateScripts_of_survives (survives : Survives edit)
    (ofScripts : edit.dict = .scripts) (holds : entries.get? edit.key = edit.value) :
    (validateScripts entries).get? edit.key = edit.value := by
  obtain ⟨noSample, current⟩ := survives ofScripts
  have popped : (entries.pop sampleName).get? edit.key = edit.value := by
    rw [PyDict.get?_pop]
    split_ifs with isSample
    · exact (noSample isSample).symm
    · exact holds
  rcases validateScripts_cases entries with ⟨_, _, _, whole⟩ | ⟨legacy, whole⟩
  · rw [whole, popped]
  · rw [whole, PyDict.get?_set]
    split_ifs with isUniversal
    · obtain ⟨code, puts, isCurrent⟩ := current isUniversal
      rw [isUniversal, puts] at holds
      rw [legacy code holds] at isCurrent
      cases isCurrent
    · exact popped

def kept (dict : ConfigDict) (entries : PyDict Text Text) : PyDict Text Text :=
  readDict dict (validDict dict (.entries entries))

theorem get?_kept_key (survives : Survives edit) (holds : entries.get? edit.key = edit.value) :
    (kept edit.dict entries).get? edit.key = edit.value := by
  cases ofDict : edit.dict with
  | apiKeys => exact holds
  | scripts => exact get?_validateScripts_of_survives survives ofDict holds

theorem get?_kept_of_ne
    (current : ∀ name, entries.get? name = (storedDict edit.dict file).get? name) {name : Text}
    (other : name ≠ edit.key) :
    (kept edit.dict (edit.apply entries)).get? name = (storedDict edit.dict file).get? name := by
  have same : (edit.apply entries).get? name = (storedDict edit.dict file).get? name := by
    rw [edit.get?_apply, if_neg other, current]
  cases ofDict : edit.dict with
  | apiKeys =>
    rw [ofDict] at same
    exact same
  | scripts =>
    rw [ofDict] at same
    exact (validated_storedDict file).get?_validateScripts same

/-- **One write.** With a dictionary that is current, `set_config` finds the entry
in the file, raises, or writes a file with the entry and the other ones as they
were. -/
theorem prepareDict_cases (survives : Survives edit)
    (current : ∀ name, entries.get? name = (storedDict edit.dict file).get? name) :
    prepareDict env file edit.dict (edit.apply entries) = .done true ∨
      (prepareDict env file edit.dict (edit.apply entries) = .done false ∧
        (storedDict edit.dict file).get? edit.key = edit.value) ∨
      ∃ new, prepareDict env file edit.dict (edit.apply entries) = .saving new ∧
        Writes (some edit) file (some new) := by
  have holds : (edit.apply entries).get? edit.key = edit.value := by
    rw [edit.get?_apply, if_pos rfl]
  rw [prepareDict]
  split_ifs with found
  · refine Or.inr (Or.inl ⟨rfl, ?_⟩)
    cases setting : (loadConfigDict env file).dicts edit.dict with
    | missing | other =>
      rw [setting] at found
      cases found
    | entries stored =>
      rw [setting] at found
      have same : stored.get? edit.key = edit.value := by
        rw [PyDict.get?_eq_of_perm (of_decide_eq_true found), holds]
      rw [← storedDict_loadConfigDict env, storedDict, map_some, setting]
      exact get?_kept_key survives same
  · split
    · exact Or.inl rfl
    · refine Or.inr (Or.inr ⟨_, rfl, fun dict name => ?_⟩)
      have others : dict ≠ edit.dict → storedDict dict (some (⟨Function.update
          (loadConfigDict env file).dicts edit.dict (.entries (edit.apply entries)),
          (loadConfigDict env file).others⟩ : ConfigFile ω)) = storedDict dict file := by
        intro different
        rw [← storedDict_loadConfigDict env dict file]
        simp only [storedDict, map_some, getD_some, Function.update_of_ne different]
      have own : storedDict edit.dict (some (⟨Function.update
          (loadConfigDict env file).dicts edit.dict (.entries (edit.apply entries)),
          (loadConfigDict env file).others⟩ : ConfigFile ω)) =
            kept edit.dict (edit.apply entries) := by
        simp only [storedDict, kept, map_some, getD_some, Function.update_self]
      rw [storedDict_written]
      by_cases same : dict = edit.dict
      · rw [same, own]
        by_cases isKey : name = edit.key
        · refine Or.inr ⟨edit, rfl, rfl, isKey.symm, ?_⟩
          rw [isKey]
          exact get?_kept_key survives holds
        · refine Or.inl ⟨fun other isOwn _ => ?_, get?_kept_of_ne current isKey⟩
          cases isOwn
          exact Ne.symm isKey
      · refine Or.inl ⟨fun other isOwn ofDict => ?_, by rw [others same]⟩
        cases isOwn
        exact absurd ofDict.symm same

theorem writes_none {before after : Option (ConfigFile ω)}
    (same : ∀ dict, storedDict dict after = storedDict dict before) :
    Writes none before after :=
  fun dict _ => Or.inl ⟨nofun, by rw [same dict]⟩

theorem prepareOther_cases (file : Option (ConfigFile ω)) (change : ω → Option ω) :
    prepareOther env file change = .done true ∨ prepareOther env file change = .done false ∨
      ∃ new, prepareOther env file change = .saving new ∧ Writes none file (some new) := by
  rw [prepareOther]
  split
  · exact Or.inr (Or.inl rfl)
  · split
    · exact Or.inl rfl
    · exact Or.inr (Or.inr ⟨_, rfl,
        writes_none fun dict => by rw [storedDict_written, storedDict_loadConfigDict]⟩)

variable {ι : Type} [DecidableEq ι] (normalizeEndpointUrl : Text → Text) (calls : ι → ConfigCall ω)

/-- The phases of a call that has the lock. -/
def ConfigPhase.HasLock : ConfigPhase ω → Prop
  | .loading | .loaded _ | .saving _ | .saved => True
  | _ => False

/-- The phases behind the writing of the file. -/
def ConfigPhase.HasWritten (phase : ConfigPhase ω) : Prop :=
  phase = .saved ∨ phase = .done false

def editOf (call : ι) : Option DictEdit := (calls call).edit normalizeEndpointUrl

def Alone (call : ι) (edit : DictEdit) : Prop :=
  ∀ other own, editOf normalizeEndpointUrl calls other = some own → own.dict = edit.dict →
    own.key = edit.key → other = call

/-- At most one call has the lock; the file about to be written holds the entry of
its call and is otherwise as the one that is there; and what one call alone wrote is
in the file. -/
structure EntriesKept (system : ConfigSystem ι ω) : Prop where
  locked : ∀ call, (system.phases call).HasLock → system.holder = some call
  saving : ∀ call new, system.phases call = .saving new →
    Writes (editOf normalizeEndpointUrl calls call) system.file (some new)
  written : ∀ call edit, editOf normalizeEndpointUrl calls call = some edit →
    (system.phases call).HasWritten → Alone normalizeEndpointUrl calls call edit →
      (storedDict edit.dict system.file).get? edit.key = edit.value

variable {normalizeEndpointUrl calls} {system : ConfigSystem ι ω}

/-- **Frame.** A call moves on: no other call has the lock or the lock stays as it
is, and the file changes in the entry of the call at most, while no other call has
the lock. -/
theorem EntriesKept.moved (keeps : EntriesKept normalizeEndpointUrl calls system) {call : ι}
    {cache : Option (ConfigFile ω)} {holder : Option ι} (takes : phase.HasLock → holder = some call)
    (others : holder = system.holder ∨ ∀ other ≠ call, ¬ (system.phases other).HasLock)
    (changes : file = system.file ∨ (∀ other ≠ call, ¬ (system.phases other).HasLock) ∧ (Writes none system.file file ∨ Writes (editOf normalizeEndpointUrl calls call) system.file file))
    (saves : ∀ new, phase = .saving new → Writes (editOf normalizeEndpointUrl calls call) file (some new))
    (wrote : ∀ edit, editOf normalizeEndpointUrl calls call = some edit → phase.HasWritten → Alone normalizeEndpointUrl calls call edit → (storedDict edit.dict file).get? edit.key = edit.value) :
    EntriesKept normalizeEndpointUrl calls
      ⟨file, cache, holder, Function.update system.phases call phase⟩ := by
  refine ⟨fun other hasLock => ?_, fun other new isSaving => ?_,
    fun other edit asked hasWritten alone => ?_⟩
  · by_cases same : other = call
    · rw [same] at hasLock ⊢
      simp only [Function.update_self] at hasLock
      exact takes hasLock
    · simp only [Function.update_of_ne same] at hasLock
      rcases others with unmoved | noOther
      · exact unmoved.trans (keeps.locked other hasLock)
      · exact absurd hasLock (noOther other same)
  · by_cases same : other = call
    · rw [same] at isSaving ⊢
      simp only [Function.update_self] at isSaving
      exact saves new isSaving
    · simp only [Function.update_of_ne same] at isSaving
      rcases changes with unchanged | ⟨noOther, -⟩
      · rw [unchanged]
        exact keeps.saving other new isSaving
      · refine absurd ?_ (noOther other same)
        rw [isSaving]
        trivial
  · by_cases same : other = call
    · rw [same] at asked alone hasWritten
      simp only [Function.update_self] at hasWritten
      exact wrote edit asked hasWritten alone
    · simp only [Function.update_of_ne same] at hasWritten
      have before := keeps.written other edit asked hasWritten alone
      rcases changes with unchanged | ⟨-, nothing | own⟩
      · rw [unchanged]
        exact before
      · rcases nothing edit.dict edit.key with ⟨-, equal⟩ | ⟨_, isOwn, -⟩
        · exact equal.trans before
        · cases isOwn
      · rcases own edit.dict edit.key with ⟨-, equal⟩ | ⟨written, isOwn, ofDict, isKey, -⟩
        · exact equal.trans before
        · exact absurd (alone call written isOwn ofDict isKey) (Ne.symm same)

omit [DecidableEq ι] in
theorem EntriesKept.noOther_of_free (keeps : EntriesKept normalizeEndpointUrl calls system)
    (free : system.holder = none) (other : ι) : ¬ (system.phases other).HasLock := by
  intro hasLock
  rw [keeps.locked other hasLock] at free
  cases free

omit [DecidableEq ι] in
theorem EntriesKept.noOther_of_hasLock (keeps : EntriesKept normalizeEndpointUrl calls system)
    {call : ι} (hasLock : (system.phases call).HasLock) {other : ι} (different : other ≠ call) :
    ¬ (system.phases other).HasLock := by
  intro otherHasLock
  have same := (keeps.locked call hasLock).symm.trans (keeps.locked other otherHasLock)
  exact different (some.inj same).symm

theorem EntriesKept.goTo (keeps : EntriesKept normalizeEndpointUrl calls system) {call : ι}
    (noLock : ¬ phase.HasLock)
    (wrote : ∀ edit, editOf normalizeEndpointUrl calls call = some edit → phase.HasWritten → (storedDict edit.dict system.file).get? edit.key = edit.value) :
    EntriesKept normalizeEndpointUrl calls (system.goTo call phase) := by
  refine keeps.moved (fun hasLock => absurd hasLock noLock) (Or.inl rfl) (Or.inl rfl) ?_
    (fun edit asked hasWritten _ => wrote edit asked hasWritten)
  rintro new rfl
  exact absurd trivial noLock

theorem EntriesKept.enter (keeps : EntriesKept normalizeEndpointUrl calls system)
    (luck : ConfigLuck) {call : ι} {prepared : ConfigPhase ω}
    (outcome : system.holder = none → prepared = .done true ∨ (prepared = .done false ∧ ∀ edit, editOf normalizeEndpointUrl calls call = some edit → (storedDict edit.dict system.file).get? edit.key = edit.value) ∨ ∃ new, prepared = .saving new ∧ Writes (editOf normalizeEndpointUrl calls call) system.file (some new)) :
    EntriesKept normalizeEndpointUrl calls (enter luck call prepared system) := by
  have raised : EntriesKept normalizeEndpointUrl calls (system.goTo call (.done true)) :=
    keeps.goTo id fun _ _ hasWritten => hasWritten.elim nofun nofun
  rw [Framework.enter.eq_def]
  split_ifs with free readFails
  · exact raised
  · rcases outcome free with rfl | ⟨rfl, found⟩ | ⟨new, rfl, writes⟩
    · exact raised
    · exact keeps.goTo id fun edit asked _ => found edit asked
    · refine keeps.moved (fun _ => rfl) (Or.inr fun other _ => keeps.noOther_of_free free other)
        (Or.inl rfl) (fun other isSaving => ?_) (fun _ _ hasWritten => hasWritten.elim nofun nofun)
      cases isSaving
      exact writes
  · exact keeps

variable (normalizeEndpointUrl calls)

/-- A call that enters `set_config` has the dictionary that the file holds, and
validation leaves its entry as it is. -/
def EntersCurrent (system : ConfigSystem ι ω) (tick : ι × ConfigLuck) : Prop :=
  ∀ data edit, system.phases tick.1 = .haveRead data →
    editOf normalizeEndpointUrl calls tick.1 = some edit → system.holder = none →
      Survives edit ∧ ∀ name, (dictOf edit.dict data).get? name =
        (storedDict edit.dict system.file).get? name

variable {env normalizeEndpointUrl calls}

/-- **One step.** -/
theorem EntriesKept.step (keeps : EntriesKept normalizeEndpointUrl calls system)
    {tick : ι × ConfigLuck} (current : EntersCurrent normalizeEndpointUrl calls system tick) :
    EntriesKept normalizeEndpointUrl calls
      (configStep env normalizeEndpointUrl calls system tick) := by
  obtain ⟨call, luck⟩ := tick
  rw [configStep]
  cases phase : system.phases call with
  | start =>
    have goes (next : ConfigPhase ω) (noLock : ¬ next.HasLock) (notWritten : ¬ next.HasWritten) :
        EntriesKept normalizeEndpointUrl calls (system.goTo call next) :=
      keeps.goTo noLock fun _ _ hasWritten => absurd hasWritten notWritten
    have reads : EntriesKept normalizeEndpointUrl calls
        (if system.file.isNone then system.goTo call (.haveRead none)
          else if system.cache.isSome && luck.fresh then system.goTo call .cacheSeen
          else system.goTo call .awaitLoad) := by
      split_ifs <;> exact goes _ id (by simp [ConfigPhase.HasWritten])
    cases isCall : calls call with
    | setOther change =>
      have noEdit : editOf normalizeEndpointUrl calls call = none := by
        rw [editOf, isCall]
        rfl
      refine keeps.enter luck fun _ => ?_
      rw [noEdit]
      exact (prepareOther_cases env system.file change).imp_right
        (Or.imp_left fun found => ⟨found, nofun⟩)
    | setApiKeyForEndpoint | saveUserScript | deleteUserScript | getConfig => exact reads
  | cacheSeen => exact keeps.goTo id fun _ _ hasWritten => hasWritten.elim nofun nofun
  | awaitLoad =>
    dsimp only [ConfigSystem.acquire]
    split_ifs with free
    · exact keeps.moved (fun _ => rfl) (Or.inr fun other _ => keeps.noOther_of_free free other)
        (Or.inl rfl) nofun (fun _ _ hasWritten => hasWritten.elim nofun nofun)
    · exact keeps
  | loading =>
    have hasLock : (system.phases call).HasLock := by
      rw [phase]
      trivial
    have reads (data : Option (ConfigFile ω)) : EntriesKept normalizeEndpointUrl calls
        (system.goTo call (.haveRead data)).release :=
      keeps.moved nofun (Or.inr fun _ different => keeps.noOther_of_hasLock hasLock different)
        (Or.inl rfl) nofun (fun _ _ hasWritten => hasWritten.elim nofun nofun)
    dsimp only
    split_ifs
    · exact reads system.cache
    · exact reads none
    · exact keeps.moved (fun _ => keeps.locked call hasLock) (Or.inl rfl)
        (Or.inr ⟨fun _ different => keeps.noOther_of_hasLock hasLock different,
          Or.inl (writes_none (storedDict_loadFile env luck system.file))⟩)
        nofun (fun _ _ hasWritten => hasWritten.elim nofun nofun)
  | loaded data =>
    have hasLock : (system.phases call).HasLock := by
      rw [phase]
      trivial
    exact keeps.moved nofun (Or.inr fun _ different => keeps.noOther_of_hasLock hasLock different)
      (Or.inl rfl) nofun (fun _ _ hasWritten => hasWritten.elim nofun nofun)
  | haveRead data =>
    cases asked : (calls call).edit normalizeEndpointUrl with
    | none =>
      exact keeps.goTo id fun edit isEdit _ => by
        rw [editOf, asked] at isEdit
        cases isEdit
    | some edit =>
      have isEdit : editOf normalizeEndpointUrl calls call = some edit := asked
      refine keeps.enter luck fun free => ?_
      obtain ⟨survives, isCurrent⟩ := current data edit phase asked free
      rw [isEdit]
      refine (prepareDict_cases env survives isCurrent).imp_right
        (Or.imp_left fun ⟨found, holds⟩ => ⟨found, fun other isOther => ?_⟩)
      cases isOther
      exact holds
  | saving file =>
    have hasLock : (system.phases call).HasLock := by
      rw [phase]
      trivial
    dsimp only
    split_ifs
    · exact keeps.moved nofun (Or.inr fun _ different => keeps.noOther_of_hasLock hasLock different)
        (Or.inl rfl) nofun (fun _ _ hasWritten => hasWritten.elim nofun nofun)
    · have writes := keeps.saving call file phase
      refine keeps.moved (fun _ => keeps.locked call hasLock) (Or.inl rfl)
        (Or.inr ⟨fun _ different => keeps.noOther_of_hasLock hasLock different, Or.inr writes⟩)
        nofun (fun edit asked _ _ => ?_)
      rcases writes edit.dict edit.key with ⟨noEdit, -⟩ | ⟨own, isOwn, -, -, holds⟩
      · exact absurd rfl (noEdit edit asked rfl)
      · rw [asked] at isOwn
        cases isOwn
        exact holds
  | saved =>
    have hasLock : (system.phases call).HasLock := by
      rw [phase]
      trivial
    exact keeps.moved nofun (Or.inr fun _ different => keeps.noOther_of_hasLock hasLock different)
      (Or.inl rfl) nofun
      (fun edit asked _ alone => keeps.written call edit asked (Or.inl phase) alone)
  | done raised => exact keeps

/-- No call has begun; the cache may hold anything. -/
structure Started (system : ConfigSystem ι ω) : Prop where
  free : system.holder = none
  start : ∀ call, system.phases call = .start

omit [DecidableEq ι] in
theorem Started.entriesKept (started : Started system) :
    EntriesKept normalizeEndpointUrl calls system := by
  refine ⟨fun call hasLock => ?_, fun call new isSaving => ?_, fun call _ _ hasWritten _ => ?_⟩
  · rw [started.start call] at hasLock
    exact hasLock.elim
  · rw [started.start call] at isSaving
    cases isSaving
  · rw [started.start call] at hasWritten
    exact hasWritten.elim nofun nofun

def entersCurrent (normalizeEndpointUrl : Text → Text) (calls : ι → ConfigCall ω)
    (system : ConfigSystem ι ω) (tick : ι × ConfigLuck) : Bool :=
  match system.phases tick.1, editOf normalizeEndpointUrl calls tick.1 with
  | .haveRead data, some edit =>
    edit.key != sampleName && edit.key != universalName &&
      decide ((dictOf edit.dict data).entries = (storedDict edit.dict system.file).entries)
  | _, _ => true

omit [DecidableEq ι] in
theorem entersCurrent_sound {tick : ι × ConfigLuck}
    (checked : entersCurrent normalizeEndpointUrl calls system tick = true) :
    EntersCurrent normalizeEndpointUrl calls system tick := by
  intro data edit phase asked _
  rw [entersCurrent, phase, asked] at checked
  simp only [Bool.and_eq_true, bne_iff_ne, ne_eq, decide_eq_true_eq] at checked
  obtain ⟨⟨noSample, noUniversal⟩, same⟩ := checked
  refine ⟨fun _ => ⟨fun isSample => absurd isSample noSample,
    fun isUniversal => absurd isUniversal noUniversal⟩, fun name => ?_⟩
  rw [PyDict.ext same]

omit [DecidableEq ι] in
theorem entersCurrent_of_haveRead {tick : ι × ConfigLuck} {data : Option (ConfigFile ω)}
    {edit : DictEdit} (phase : system.phases tick.1 = .haveRead data)
    (asked : editOf normalizeEndpointUrl calls tick.1 = some edit)
    (own : (edit.key != sampleName && edit.key != universalName) = true)
    (same : (dictOf edit.dict data).entries = (storedDict edit.dict system.file).entries) :
    entersCurrent normalizeEndpointUrl calls system tick = true := by
  rw [entersCurrent, phase, asked]
  exact (Bool.and_eq_true _ _).mpr ⟨own, decide_eq_true same⟩

def noOthers : OtherSettings Unit := ⟨(), some, .asRead⟩

def defaultFile : ConfigSystem Bool Unit :=
  ⟨some ⟨fun _ => .missing, ()⟩, none, none, fun _ => .start⟩

theorem started_defaultFile : Started defaultFile := ⟨rfl, fun _ => rfl⟩

def plain : ConfigLuck := ⟨false, false, false, false⟩

def readReadWriteWrite : List (Bool × ConfigLuck) :=
  [false, false, false, false, true, true, true, true, false, false, false, true, true, true].map
    fun call => (call, plain)

def keyAndScript : Bool → ConfigCall Unit
  | false => .setApiKeyForEndpoint ['a'] ['k']
  | true => .saveUserScript ['b'] ['x']

theorem entersCurrent_readReadWriteWrite : Along (configStep noOthers id keyAndScript)
    (fun system tick => entersCurrent id keyAndScript system tick = true)
    defaultFile readReadWriteWrite := by
  rw [← List.take_append_drop 11 readReadWriteWrite, Along.append_iff]
  refine ⟨by decide +kernel, And.intro ?_ (And.intro rfl (And.intro rfl trivial))⟩
  -- The default scripts are on both sides, and are not evaluated.
  exact entersCurrent_of_haveRead rfl rfl (by decide +kernel) rfl

def twoKeys : Bool → ConfigCall Unit
  | false => .setApiKeyForEndpoint ['a'] ['k']
  | true => .setApiKeyForEndpoint ['b'] ['l']

end WriterAgent.Framework
