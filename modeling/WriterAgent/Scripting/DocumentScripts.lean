import WriterAgent.Framework.LenientJson
import WriterAgent.Foundations.JsonDumps
import WriterAgent.Foundations.SourceLines

/-!
# The script stores

`plugin/scripting/document_scripts.py`: scripts are kept in two maps, My
Scripts in the configuration and an envelope in a property of the document.
Every change of a map reads it, changes it and writes it as a whole; the
configuration puts My Scripts in order when it writes them.  The selected
script of the picker is not modelled.
-/

namespace WriterAgent.Scripting

open PyText Framework List

/-- `_DEFAULT_PYTHON_SCRIPTS["Universal Sample"]`. -/
def universalSample : Text :=
  join '\n' (["import writeragent as wa", "", "doc_type = wa.get_active_document_type()",
    "print(f\"Detected active document type: \x7bdoc_type\x7d\")",
    "",
    "# 1. Insert rich HTML",
    "if doc_type == \"writer\":",
    "    wa.writer.apply_document_content(content=[\"<h1>Hello from WriterAgent</h1>\", \"<p>Rich <b>HTML</b> at the end.</p>\"], target=\"end\")",
    "elif doc_type == \"calc\":",
    "    wa.calc.insert_cell_html(cell=\"A1\", html=\"<h1>Hello from WriterAgent</h1><p>Rich <b>HTML</b>.</p>\")",
    "else:",
    "    print(\"Unsupported document type for rich text insertion.\")",
    "",
    "# 2. 24-sided star (sizes in 100ths of a mm; 4000 = 4cm)",
    "wa.shape.upsert(action=\"create\", shape_type=\"star24\", x=2000, y=5000, width=4000, height=4000, fill_color=\"blue\", text=\"24-sided Star\")",
    "print(\"Inserted a 24-sided blue star shape.\")"].map String.toList)

/-- `_LEGACY_UNIVERSAL_SAMPLE_MARKERS`. -/
def legacyMarkers : List Text :=
  ["cell_address=\"A1\"", "wa.shape.upsert_shape(", "Hello from Python SDK",
    "if __name__ == \"__main__\":\n    run()"].map String.toList

def sampleName : Text := "Sample".toList
def universalName : Text := "Universal Sample".toList

def isLegacy (code : Text) : Bool := legacyMarkers.any fun marker => decide (marker <:+: code)

/-- What `WriterAgentConfig.validate` does to `saved_python_scripts`. -/
def validateScripts (scripts : PyDict Text Text) : PyDict Text Text :=
  let scripts := scripts.pop sampleName
  match scripts.get? universalName with
  | none => scripts.set universalName universalSample
  | some code => if isLegacy code then scripts.set universalName universalSample else scripts

/-- A map that the configuration leaves as it is. -/
structure Validated (scripts : PyDict Text Text) : Prop where
  noSample : scripts.get? sampleName = none
  universal : ∃ code, scripts.get? universalName = some code ∧ isLegacy code = false

theorem isLegacy_universalSample : isLegacy universalSample = false := by
  -- Reading the literals off as lists first keeps the evaluation small.
  simp only [universalSample, isLegacy, legacyMarkers, map_cons, map_nil]
  repeat rw [String.toList_ofList]
  decide +kernel

theorem sampleName_ne : sampleName ≠ universalName := by
  decide

variable {scripts : PyDict Text Text}

theorem validateScripts_cases (scripts : PyDict Text Text) :
    (∃ code, scripts.get? universalName = some code ∧ isLegacy code = false ∧
      validateScripts scripts = scripts.pop sampleName) ∨
    ((∀ code, scripts.get? universalName = some code → isLegacy code = true) ∧
      validateScripts scripts = (scripts.pop sampleName).set universalName universalSample) := by
  have same : (scripts.pop sampleName).get? universalName = scripts.get? universalName := by
    rw [PyDict.get?_pop, if_neg sampleName_ne.symm]
  rw [validateScripts, same]
  cases found : scripts.get? universalName with
  | none => exact Or.inr ⟨nofun, rfl⟩
  | some code =>
    cases legacy : isLegacy code with
    | true => exact Or.inr ⟨fun other isCode => Option.some.inj isCode ▸ legacy, if_pos legacy⟩
    | false => exact Or.inl ⟨code, rfl, legacy, if_neg (Bool.not_eq_true _ ▸ legacy)⟩

theorem validated_validateScripts (scripts : PyDict Text Text) :
    Validated (validateScripts scripts) := by
  rcases validateScripts_cases scripts with ⟨code, found, current, same⟩ | ⟨-, same⟩
  · rw [same]
    exact ⟨by simp, code, by rw [PyDict.get?_pop, if_neg sampleName_ne.symm, found], current⟩
  · rw [same]
    exact ⟨by rw [PyDict.get?_set, if_neg sampleName_ne]; simp,
      universalSample, by simp, isLegacy_universalSample⟩

theorem Validated.get?_validateScripts {changed : PyDict Text Text} (validated : Validated scripts)
    {other : Text} (same : changed.get? other = scripts.get? other) :
    (validateScripts changed).get? other = scripts.get? other := by
  have popped : (changed.pop sampleName).get? other = scripts.get? other := by
    rw [PyDict.get?_pop]
    split_ifs with isSample
    · rw [isSample, validated.noSample]
    · exact same
  rcases validateScripts_cases changed with ⟨_, _, _, whole⟩ | ⟨legacy, whole⟩
  · rw [whole, popped]
  · rw [whole, PyDict.get?_set]
    split_ifs with isUniversal
    · obtain ⟨code, found, current⟩ := validated.universal
      rw [isUniversal, found] at same
      rw [legacy code same] at current
      cases current
    · exact popped

theorem Validated.validateScripts_eq (validated : Validated scripts) :
    validateScripts scripts = scripts := by
  rcases validateScripts_cases scripts with ⟨_, _, _, whole⟩ | ⟨legacy, -⟩
  · rw [whole]
    refine PyDict.filterKeys_eq_self fun key value found => ?_
    have noSample : key ≠ sampleName := by
      rintro rfl
      rw [validated.noSample] at found
      cases found
    simpa using noSample
  · obtain ⟨code, found, current⟩ := validated.universal
    rw [legacy code found] at current
    cases current

/-- My Scripts as `get_user_scripts` returns it. -/
structure UserScripts where
  scripts : PyDict Text Text
  validated : Validated scripts

def UserScripts.store (scripts : PyDict Text Text) : UserScripts :=
  ⟨validateScripts scripts, validated_validateScripts scripts⟩

def saveUserScript (name code : Text) (user : UserScripts) : UserScripts :=
  .store (user.scripts.set name code)

def deleteUserScript (name : Text) (user : UserScripts) : UserScripts :=
  .store (user.scripts.pop name)

/-- `json.loads` with the readers behind it, the characters of words, what
equals the version `1`, and the translation of a text. -/
structure ScriptEnv (ν : Type) where
  parts : JsonParts ν
  readers : JsonReaders ν
  isOne : ν → Bool
  translate : Text → Text
  loads_eq : readers.loads = jsonLoads parts
  readsOne : ∃ one, parts.number ['1'] = some one ∧ isOne one = true

variable {ν : Type} (env : ScriptEnv ν)

/-- `value == 1`; `True` equals `1`. -/
def isVersion (value : Json ν) : Bool :=
  match value with
  | .num n => env.isOne n
  | .bool b => b
  | _ => false

def envelopeToJson (scripts : PyDict Text Text) : Text :=
  ['{'] ++ (dumpsString "version".toList ++ ([':', '1', ','] ++ (dumpsString "scripts".toList ++
    ([':'] ++ (dumpsStringMap scripts.entries ++ ['}'])))))

def textItem? (field : Text × Json ν) : Option (Text × Text) :=
  match field.2 with
  | .str code => some (field.1, code)
  | _ => none

def envelopeFromJson (raw : Text) : Option (PyDict Text Text) :=
  if strip raw = [] then none
  else
    match safeJsonLoads env.readers (strip raw) with
    | .obj fields =>
      if isVersion env (Json.get fields "version") then
        match Json.get fields "scripts" with
        | .obj scripts => some (.ofPairs (scripts.filterMap textItem?))
        | _ => none
      else none
    | _ => none

def envelopeTokens (scripts : PyDict Text Text) : List JsonToken :=
  [.symbol '{', stringToken "version".toList, .symbol ':', .word ['1'], .symbol ',',
    stringToken "scripts".toList, .symbol ':'] ++ (stringMapTokens scripts.entries ++ [.symbol '}'])

theorem lexes_envelopeToJson (scripts : PyDict Text Text) :
    Lexes (envelopeToJson scripts) (envelopeTokens scripts) := by
  have brace : Lexes ['{'] [.symbol '{'] := lexes_symbol rfl
  have version : Lexes [':', '1', ','] [.symbol ':', .word ['1'], .symbol ','] := by
    intro before
    simp [JsonLexer.run, JsonLexer.step, isJsonSpace, isJsonSymbol, isJsonWord, JsonLexer.flush,
      isAsciiDigit]
  have colon : Lexes [':'] [.symbol ':'] := lexes_symbol rfl
  have close : Lexes ['}'] [.symbol '}'] := lexes_symbol rfl
  exact brace.append ((lexes_dumpsString _).append (version.append ((lexes_dumpsString _).append
    (colon.append ((lexes_dumpsStringMap scripts.entries).append close)))))

theorem jsonLoads_envelopeToJson {parts : JsonParts ν} {one : ν}
    (number : parts.number ['1'] = some one) (scripts : PyDict Text Text) :
    jsonLoads parts (envelopeToJson scripts) = some (.obj [("version".toList, .num one),
        ("scripts".toList, .obj (scripts.entries.map textField))]) := by
  have lexed : jsonTokens (envelopeToJson scripts) = some (envelopeTokens scripts) := by
    rw [jsonTokens, JsonLexer.start, lexes_envelopeToJson scripts, nil_append]
    rfl
  have isOne : wordValue parts ['1'] = some (.num one) := by
    simp [wordValue, isJsonNumber, isNumberTail, isAsciiDigit, number]
  have head : ([.symbol '{', stringToken "version".toList, .symbol ':', .word ['1'], .symbol ',',
      stringToken "scripts".toList, .symbol ':'] : List JsonToken).foldlM (JsonParser.step parts)
        .start = some ⟨[.member [("version".toList, .num one)] "scripts".toList], .value⟩ := by
    have opened : JsonParser.step parts .start (.symbol '{') = some ⟨[.object []], .firstKey⟩ := rfl
    have version : JsonParser.step parts ⟨[.object []], .firstKey⟩ (stringToken "version".toList) =
        some ⟨[.member [] "version".toList], .colon⟩ := by
      have name : stringToken "version".toList ≠ .symbol '}' := by rintro ⟨⟩
      rw [JsonParser.step, if_neg name, stepKey_stringToken]
    have value : JsonParser.step parts ⟨[.member [] "version".toList], .value⟩ (.word ['1']) =
        some ⟨[.object [("version".toList, .num one)]], .behind⟩ := by
      rw [JsonParser.step, JsonParser.stepValue, isOne]
      rfl
    have others : JsonParser.step parts ⟨[.object [("version".toList, .num one)]], .key⟩
        (stringToken "scripts".toList) =
          some ⟨[.member [("version".toList, .num one)] "scripts".toList], .colon⟩ :=
      stepKey_stringToken parts _ [] _
    have colon (stack : List (JsonFrame ν)) : JsonParser.step parts ⟨stack, .colon⟩ (.symbol ':') =
        some ⟨stack, .value⟩ := rfl
    have comma (fields : Json.Fields ν) : JsonParser.step parts ⟨[.object fields], .behind⟩
        (.symbol ',') = some ⟨[.object fields], .key⟩ := rfl
    simp only [foldlM_cons, foldlM_nil, opened, version, colon, value, comma, others,
      Option.bind_eq_bind, Option.bind_some, Option.pure_def]
  rw [jsonLoads, lexed, Option.bind_some, parseTokens, envelopeTokens, foldlM_append,
    head, Option.bind_eq_bind, Option.bind_some, foldlM_append,
    parsesTo_stringMapTokens parts scripts.distinct]
  rfl

theorem strip_envelopeToJson (scripts : PyDict Text Text) :
    strip (envelopeToJson scripts) = envelopeToJson scripts := by
  apply strip_eq_self
  constructor
  · intro c first
    cases first
    rfl
  · intro c last
    have ends : (envelopeToJson scripts).getLast? = some '}' := by
      simp [envelopeToJson, List.getLast?_append, List.getLast?_cons]
    rw [ends] at last
    cases last
    rfl

/-- **Round trip.** An envelope that the repair leaves alone is read back. -/
theorem envelopeFromJson_envelopeToJson
    (noClash : ¬ HasLatexClash env.readers.isWord (envelopeToJson scripts)) :
    envelopeFromJson env (envelopeToJson scripts) = some scripts := by
  obtain ⟨one, number, isOne⟩ := env.readsOne
  have loaded := jsonLoads_envelopeToJson number scripts
  have read : safeJsonLoads env.readers (envelopeToJson scripts) =
      .obj [("version".toList, .num one),
        ("scripts".toList, .obj (scripts.entries.map textField))] :=
    safeJsonLoads_of_noClash env.loads_eq loaded (by rwa [strip_envelopeToJson])
  have version : isVersion env (Json.get [("version".toList, .num one),
      ("scripts".toList, .obj (scripts.entries.map textField))] "version") = true := isOne
  have items : (scripts.entries.map (textField (ν := ν))).filterMap textItem? =
      scripts.entries := by
    rw [filterMap_map, show textItem? ∘ textField (ν := ν) = some from rfl, filterMap_some]
  rw [envelopeFromJson, strip_envelopeToJson, read]
  dsimp only
  rw [if_pos version]
  change some (PyDict.ofPairs ((scripts.entries.map textField).filterMap textItem?)) = _
  rw [items]
  exact congrArg some (PyDict.ext (PyDict.ofPairs_entries scripts.distinct))

/-- The texts that a message is answered with. -/
inductive Notice where
  | emptyName
  | noDocumentToSave
  | noDocumentToAttach
  | noDocument
  | tooLarge (bytes : ℕ)
  | notWritable
  | existsInDocument (name : Text)
  | existsInMyScripts (name : Text)
  | savedToMyScripts (name : Text)
  | savedToDocument (name : Text)
  | saved (name : Text)
  | attached (name : Text)
  | copied (name : Text)
  | deletedFromDocument (name : Text)
  | deleted (name : Text)
  deriving DecidableEq

def formatted (template : String) (value : Text) : Text :=
  replaceText "\x7b0\x7d".toList value (env.translate template.toList)

def Notice.text : Notice → Text
  | .emptyName => env.translate "Script name cannot be empty.".toList
  | .noDocumentToSave => env.translate "No document is open to save scripts.".toList
  | .noDocumentToAttach => env.translate "No document is open to attach scripts.".toList
  | .noDocument => env.translate "No document is open.".toList
  | .tooLarge bytes =>
    formatted env "Document scripts are too large to store in the document (\x7b0\x7d bytes)."
      (toString bytes).toList
  | .notWritable => env.translate ("Document is read-only or properties cannot be written. " ++
      "Script saved to your personal library instead.").toList
  | .existsInDocument name =>
    formatted env "A script named '\x7b0\x7d' already exists in this document." name
  | .existsInMyScripts name =>
    formatted env "A script named '\x7b0\x7d' already exists in My Scripts." name
  | .savedToMyScripts name => formatted env "Saved script '\x7b0\x7d' to My Scripts." name
  | .savedToDocument name => formatted env "Saved script '\x7b0\x7d' to this document." name
  | .saved name => formatted env "Saved script '\x7b0\x7d'." name
  | .attached name => formatted env "Attached script '\x7b0\x7d' to this document." name
  | .copied name => formatted env "Copied script '\x7b0\x7d' to My Scripts." name
  | .deletedFromDocument name => formatted env "Deleted document script '\x7b0\x7d'." name
  | .deleted name => formatted env "Deleted script '\x7b0\x7d'." name

/-- What becomes of the writing of the property. -/
inductive PropertyWrite where
  | stored
  | dropped
  | raised
  deriving DecidableEq

/-- How the document behaves while a message is handled. -/
structure DocumentFaults where
  readFails : Bool
  readonly : Bool
  write : PropertyWrite
  deriving DecidableEq

/-- `get_document_property`, whose errors are `None`. -/
def DocumentFaults.read (faults : DocumentFaults) (property : Option Text) : Option Text :=
  if faults.readFails then none else property

def getDocumentScripts (property : Option Text) : PyDict Text Text :=
  match property with
  | none => .empty
  | some raw => (envelopeFromJson env raw).getD .empty

def maxDocumentScriptsBytes : ℕ := 900000

def setDocumentScripts (faults : DocumentFaults) (property : Option Text)
    (scripts : PyDict Text Text) : Except Notice (Option Text) :=
  let encoded := utf8Length (envelopeToJson scripts)
  if encoded > maxDocumentScriptsBytes then .error (.tooLarge encoded)
  else if faults.readonly then .error .notWritable
  else
    match faults.write with
    | .stored => .ok (some (envelopeToJson scripts))
    | .dropped => .ok property
    | .raised => .error .notWritable

def attachDocumentScript (faults : DocumentFaults) (property : Option Text) (name code : Text)
    (overwrite : Bool) : Except Notice (Option Text) :=
  let name := strip name
  if name = [] then .error .emptyName
  else
    let scripts := getDocumentScripts env (faults.read property)
    if scripts.contains name && !overwrite then .error (.existsInDocument name)
    else setDocumentScripts faults property (scripts.set name code)

def deleteDocumentScript (faults : DocumentFaults) (property : Option Text) (name : Text) :
    Except Notice (Option Text) :=
  setDocumentScripts faults property ((getDocumentScripts env (faults.read property)).pop name)

def saveDocumentScript (faults : DocumentFaults) (property : Option Text) (name code : Text) :
    Except Notice (Option Text) :=
  attachDocumentScript env faults property name code true

/-- A message; a code that is no text is none. -/
inductive ScriptMessage where
  | requestScripts
  | selectScript (name : Text)
  | saveScript (name : Text) (code : Option Text) (origin : Text)
  | attachScript (name : Text) (code : Option Text) (overwrite : Bool)
  | copyScriptToUser (name : Text) (code : Option Text) (overwrite : Bool)
  | deleteScript (name origin : Text)

structure ScriptDocument where
  property : Option Text

structure ScriptStores where
  user : UserScripts
  document : Option ScriptDocument

structure StatusTexts where
  ok : Option Notice
  error : Option Notice

/-- `_script_code_from_message`. -/
def scriptCode (code : Option Text) : Text := code.getD []

def scriptOriginDocument : Text := "document".toList

/-- `handle_editor_script_message`, with the texts of the list that is sent. -/
def handleEditorScriptMessage (faults : DocumentFaults) (stores : ScriptStores) :
    ScriptMessage → ScriptStores × Option StatusTexts
  | .requestScripts => (stores, some ⟨none, none⟩)
  | .selectScript _ => (stores, none)
  | .saveScript name code origin =>
    let name := strip name
    if name = [] then (stores, some ⟨none, some .emptyName⟩)
    else if strip origin = scriptOriginDocument then
      match stores.document with
      | none => (stores, some ⟨none, some .noDocumentToSave⟩)
      | some document =>
        match saveDocumentScript env faults document.property name (scriptCode code) with
        | .error err =>
          ({ stores with user := saveUserScript name (scriptCode code) stores.user },
            some ⟨some (.savedToMyScripts name), some err⟩)
        | .ok property =>
          ({ stores with document := some ⟨property⟩ }, some ⟨some (.savedToDocument name), none⟩)
    else
      ({ stores with user := saveUserScript name (scriptCode code) stores.user },
        some ⟨some (.saved name), none⟩)
  | .attachScript name code overwrite =>
    let name := strip name
    match stores.document with
    | none => (stores, some ⟨none, some .noDocumentToAttach⟩)
    | some document =>
      match attachDocumentScript env faults document.property name (scriptCode code) overwrite with
      | .error err => (stores, some ⟨none, some err⟩)
      | .ok property =>
        ({ stores with document := some ⟨property⟩ }, some ⟨some (.attached name), none⟩)
  | .copyScriptToUser name code overwrite =>
    let name := strip name
    if name = [] then (stores, some ⟨none, some .emptyName⟩)
    else if stores.user.scripts.contains name && !overwrite then
      (stores, some ⟨none, some (.existsInMyScripts name)⟩)
    else
      ({ stores with user := saveUserScript name (scriptCode code) stores.user },
        some ⟨some (.copied name), none⟩)
  | .deleteScript name origin =>
    let name := strip name
    if name = [] then (stores, some ⟨none, some .emptyName⟩)
    else if strip origin = scriptOriginDocument then
      match stores.document with
      | none => (stores, some ⟨none, some .noDocument⟩)
      | some document =>
        match deleteDocumentScript env faults document.property name with
        | .error err => (stores, some ⟨none, some err⟩)
        | .ok property =>
          ({ stores with document := some ⟨property⟩ },
            some ⟨some (.deletedFromDocument name), none⟩)
    else
      ({ stores with user := deleteUserScript name stores.user }, some ⟨some (.deleted name), none⟩)

end WriterAgent.Scripting
