import WriterAgent.Scripting.DocumentScripts

/-!
# The configuration file under threads

`plugin/framework/config.py`: the file is read and written under one lock, and
the values of it are kept in a cache that is looked at without the lock.  The two
dictionaries of the file, the keys of endpoints and the saved scripts, are read
with `get_config`, changed by the caller and written as a whole with
`set_config`.  The other settings are left open: what validation makes of them,
and what a load writes back.
-/

namespace WriterAgent.Framework

open PyText Scripting

/-- `api_keys_by_endpoint` and `saved_python_scripts`. -/
inductive ConfigDict where
  | apiKeys
  | scripts
  deriving DecidableEq

/-- The value of a key in the file: no value, a value of another type, or a
dictionary. -/
inductive DictSetting where
  | missing
  | other
  | entries (dict : PyDict Text Text)

/-- `_resolve_default`. -/
def ConfigDict.default : ConfigDict → PyDict Text Text
  | .apiKeys => .empty
  | .scripts => .ofPairs [(universalName, universalSample)]

structure ConfigFile (ω : Type) where
  dicts : ConfigDict → DictSetting
  others : ω

/-- What `validate` makes of a value that is there. -/
def validDict : ConfigDict → DictSetting → DictSetting
  | _, .missing => .missing
  | .apiKeys, setting => setting
  | .scripts, .other => .entries (validateScripts .empty)
  | .scripts, .entries dict => .entries (validateScripts dict)

/-- What `to_dict` writes: nothing where the value is the default. -/
def writtenDict (dict : ConfigDict) (setting : DictSetting) : DictSetting :=
  match validDict dict setting with
  | .entries value => if value.entries = dict.default.entries then .missing else .entries value
  | setting => setting

/-- What `get_config` and its caller make of a value: a dictionary. -/
def readDict (dict : ConfigDict) : DictSetting → PyDict Text Text
  | .missing => dict.default
  | .other => .empty
  | .entries value => value

variable {ω : Type}

/-- `_build_validated_config_export`. -/
def ConfigFile.exported (file : ConfigFile ω) (others : ω) : ConfigFile ω :=
  ⟨fun dict => validDict dict (file.dicts dict), others⟩

/-- `to_dict` of the validated settings. -/
def ConfigFile.written (file : ConfigFile ω) (others : ω) : ConfigFile ω :=
  ⟨fun dict => writtenDict dict (file.dicts dict), others⟩

/-- A load takes the other settings as they are read, brings them into range and
writes that, or writes back a prompt limit that was upgraded. -/
inductive Loaded (ω : Type) where
  | asRead (others : ω)
  | repaired (others written : ω)
  | upgraded (others written : ω)

/-- The other settings: none, what validation makes of them or that it raises,
and what a load does. -/
structure OtherSettings (ω : Type) where
  none : ω
  validate : ω → Option ω
  load : ω → Loaded ω

/-- A call; the other settings have a function that makes the change, with none
where `set_config` finds the value there already. -/
inductive ConfigCall (ω : Type) where
  | setApiKeyForEndpoint (endpoint key : Text)
  | saveUserScript (name code : Text)
  | deleteUserScript (name : Text)
  | setOther (change : ω → Option ω)
  | getConfig

/-- One entry of a dictionary, to be set or, without a value, to be deleted. -/
structure DictEdit where
  dict : ConfigDict
  key : Text
  value : Option Text

def DictEdit.apply (edit : DictEdit) (entries : PyDict Text Text) : PyDict Text Text :=
  match edit.value with
  | some value => entries.set edit.key value
  | none => entries.pop edit.key

def ConfigCall.edit (normalizeEndpointUrl : Text → Text) : ConfigCall ω → Option DictEdit
  | .setApiKeyForEndpoint endpoint key => some ⟨.apiKeys, normalizeEndpointUrl endpoint, some key⟩
  | .saveUserScript name code => some ⟨.scripts, name, some code⟩
  | .deleteUserScript name => some ⟨.scripts, name, none⟩
  | .setOther _ => none
  | .getConfig => none

/-- Where a call is. -/
inductive ConfigPhase (ω : Type) where
  | start
  /-- The cache was there and fresh, and is returned next. -/
  | cacheSeen
  | awaitLoad
  /-- With the lock, before the second look at the cache. -/
  | loading
  /-- With the lock; the file is read, and the cache is set next. -/
  | loaded (data : ConfigFile ω)
  /-- `get_config` has its data; none is the empty dictionary. -/
  | haveRead (data : Option (ConfigFile ω))
  /-- With the lock in `set_config`; the file is replaced next. -/
  | saving (file : ConfigFile ω)
  /-- With the lock; the cache is dropped next. -/
  | saved
  | done (raised : Bool)

structure ConfigSystem (ι ω : Type) where
  file : Option (ConfigFile ω)
  cache : Option (ConfigFile ω)
  holder : Option ι
  phases : ι → ConfigPhase ω

/-- What the clock and the disk do: the cache is fresh, the file has the time of
the cache, a read raises, a write raises. -/
structure ConfigLuck where
  fresh : Bool
  sameTime : Bool
  readFails : Bool
  writeFails : Bool

variable {ι : Type} [DecidableEq ι]

namespace ConfigSystem

variable (system : ConfigSystem ι ω)

def goTo (call : ι) (phase : ConfigPhase ω) : ConfigSystem ι ω :=
  { system with phases := Function.update system.phases call phase }

def release : ConfigSystem ι ω := { system with holder := none }

def acquire (call : ι) (phase : ConfigPhase ω) : ConfigSystem ι ω :=
  if system.holder = none then { system.goTo call phase with holder := some call } else system

end ConfigSystem

variable (env : OtherSettings ω) (normalizeEndpointUrl : Text → Text)

def loadConfigDict (file : Option (ConfigFile ω)) : ConfigFile ω :=
  file.getD ⟨fun _ => .missing, env.none⟩

def loadFile (luck : ConfigLuck) (file : Option (ConfigFile ω)) :
    ConfigFile ω × Option (ConfigFile ω) :=
  let data := loadConfigDict env file
  match env.load data.others with
  | .asRead others => (data.exported others, file)
  | .repaired others written =>
    if luck.writeFails then (data.exported others, file)
    else ((data.written written).exported others, some (data.written written))
  | .upgraded others written =>
    (data.exported others, if luck.writeFails then file else some (data.written written))

/-- The dictionary that `get_config` gives for its data. -/
def dictOf (dict : ConfigDict) (data : Option (ConfigFile ω)) : PyDict Text Text :=
  readDict dict ((data.map (·.dicts dict)).getD .missing)

/-- `config_data.get(key) == value`. -/
def isStored (setting : DictSetting) (value : PyDict Text Text) : Bool :=
  match setting with
  | .entries dict => decide (dict.entries.Perm value.entries)
  | _ => false

/-- `set_config` up to the writing: the file to write, or the end of the call. -/
def prepareDict (file : Option (ConfigFile ω)) (dict : ConfigDict) (value : PyDict Text Text) :
    ConfigPhase ω :=
  let data := loadConfigDict env file
  if isStored (data.dicts dict) value then .done false
  else
    match env.validate data.others with
    | none => .done true
    | some others =>
      .saving (ConfigFile.written
        ⟨Function.update data.dicts dict (.entries value), data.others⟩ others)

def prepareOther (file : Option (ConfigFile ω)) (change : ω → Option ω) : ConfigPhase ω :=
  let data := loadConfigDict env file
  match change data.others with
  | none => .done false
  | some changed =>
    match env.validate changed with
    | none => .done true
    | some others => .saving (data.written others)

/-- Enters `set_config`: the lock stays with the call where there is a file to
write. -/
def enter (luck : ConfigLuck) (call : ι) (prepared : ConfigPhase ω) (system : ConfigSystem ι ω) :
    ConfigSystem ι ω :=
  if system.holder = none then
    if luck.readFails then system.goTo call (.done true)
    else
      match prepared with
      | .saving file => { system.goTo call (.saving file) with holder := some call }
      | phase => system.goTo call phase
  else system

/-- The next step of a call; a call that needs the lock while another one has it
stays where it is. -/
def configStep (calls : ι → ConfigCall ω) (system : ConfigSystem ι ω) (tick : ι × ConfigLuck) :
    ConfigSystem ι ω :=
  let call := tick.1
  let luck := tick.2
  match system.phases call with
  | .start =>
    match calls call with
    | .setOther change => enter luck call (prepareOther env system.file change) system
    | _ =>
      if system.file.isNone then system.goTo call (.haveRead none)
      else if system.cache.isSome && luck.fresh then system.goTo call .cacheSeen
      else system.goTo call .awaitLoad
  | .cacheSeen => system.goTo call (.haveRead system.cache)
  | .awaitLoad => system.acquire call .loading
  | .loading =>
    if system.cache.isSome && (luck.fresh || luck.sameTime) then
      (system.goTo call (.haveRead system.cache)).release
    else if luck.readFails then (system.goTo call (.haveRead none)).release
    else
      let (data, file) := loadFile env luck system.file
      { system.goTo call (.loaded data) with file := file }
  | .loaded data => { (system.goTo call (.haveRead (some data))).release with cache := some data }
  | .haveRead data =>
    match (calls call).edit normalizeEndpointUrl with
    | none => system.goTo call (.done false)
    | some edit =>
      enter luck call
        (prepareDict env system.file edit.dict (edit.apply (dictOf edit.dict data))) system
  | .saving file =>
    if luck.writeFails then (system.goTo call (.done true)).release
    else { system.goTo call .saved with file := some file }
  | .saved => { (system.goTo call (.done false)).release with cache := none }
  | .done _ => system

end WriterAgent.Framework
