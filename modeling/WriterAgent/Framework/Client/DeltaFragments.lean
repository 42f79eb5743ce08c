import WriterAgent.Framework.Client.DeltaTraces

/-!
# A message in fragments

An assistant message comes as content pieces and, for each tool call, as
fragments that carry its index.  The first fragment of a call has its id and
name; the arguments are cut anywhere, and what a delta does not carry is
absent or null.
-/

namespace WriterAgent.Framework.DeltaFragments

open PyText List Option

variable {ν : Type}

/-- No field but these is present. -/
def OnlyKeys (keys : List String) (fields : Json.Fields ν) : Prop :=
  ∀ key, key ∉ keys.map String.toList → PyDict.lookup key fields = none

variable {entry fields snapshot acc delta : Json.Fields ν}
  {items entries rest : List (Json ν)} {keys : List String} {accValue : Json ν}
  {key name before piece : Text} {chunks : List (Json.Fields ν)}

theorem OnlyKeys.of_keys {found : List Text} (isKeys : fields.map Prod.fst = found)
    (inside : ∀ key ∈ found, key ∈ keys.map String.toList) : OnlyKeys keys fields := by
  intro key outside
  rw [PyDict.lookup_eq_none, isKeys]
  exact fun member => outside (inside key member)

theorem OnlyKeys.put {keys : List String} {fields : Json.Fields ν}
    (only : OnlyKeys keys fields) {key : String} (member : key ∈ keys) (value : Json ν) :
    OnlyKeys keys (Json.put fields key value) := by
  intro other outside
  rw [Json.put, PyDict.lookup_insertEntry, if_neg, only other outside]
  rintro rfl
  exact outside (mem_map_of_mem member)

theorem distinct_put (distinct : (fields.map Prod.fst).Nodup) (key : String) (value : Json ν) :
    ((Json.put fields key value).map Prod.fst).Nodup :=
  PyDict.nodup_insertEntry distinct

variable [PyNumber ν]

def fieldMerge (accValue : Json ν) (key : Text) (deltaValue : Json ν) :
    Except PyException (Json ν) :=
  if accValue.isNull = true ∨ key = "index".toList ∨ key = "type".toList then .ok deltaValue
  else mergeValue accValue deltaValue

theorem accumulateDelta_cons_eq (acc rest : Json.Fields ν) (key : Text) (deltaValue : Json ν) :
    accumulateDelta acc ((key, deltaValue) :: rest) = (do
      let merged ← fieldMerge ((PyDict.lookup key acc).getD .null) key deltaValue
      accumulateDelta (PyDict.insertEntry key merged acc) rest) := by
  rw [accumulateDelta]
  split
  · rename_i absent
    rw [absent]
    rfl
  · rename_i isNull
    rw [isNull]
    rfl
  · rename_i accValue notNull found
    have some : accValue.isNull = false := by
      cases accValue with
      | null => exact absurd rfl notNull
      | bool | num | str | arr | obj => rfl
    rw [found, getD_some, fieldMerge]
    by_cases kept : key = "index".toList ∨ key = "type".toList
    · rw [if_pos kept, if_pos (Or.inr kept)]
      rfl
    · rw [if_neg kept, if_neg (by simp only [some, kept]; decide)]

theorem accumulateDelta_ok {acc delta : Json.Fields ν} (distinct : (delta.map Prod.fst).Nodup)
    (merges : ∀ key value, PyDict.lookup key delta = some value →
      ∃ merged, fieldMerge ((PyDict.lookup key acc).getD .null) key value = .ok merged) :
    ∃ merged, accumulateDelta acc delta = .ok merged ∧ (∀ key, PyDict.lookup key delta = none →
        PyDict.lookup key merged = PyDict.lookup key acc) ∧
      ∀ key value, PyDict.lookup key delta = some value → ∃ result,
        fieldMerge ((PyDict.lookup key acc).getD .null) key value = .ok result ∧
          PyDict.lookup key merged = some result := by
  induction delta generalizing acc with
  | nil => exact ⟨acc, by rw [accumulateDelta], fun _ _ => rfl, by simp [PyDict.lookup]⟩
  | cons field rest induction =>
    obtain ⟨first, firstValue⟩ := field
    obtain ⟨fresh, distinctRest⟩ := nodup_cons.1 distinct
    have absent : PyDict.lookup first rest = none := PyDict.lookup_eq_none.2 fresh
    obtain ⟨value, isMerged⟩ := merges first firstValue (by simp [PyDict.lookup])
    have others : ∀ key, key ≠ first →
        PyDict.lookup key (PyDict.insertEntry first value acc) = PyDict.lookup key acc ∧
          PyDict.lookup key ((first, firstValue) :: rest) = PyDict.lookup key rest := by
      intro key differs
      rw [PyDict.lookup_insertEntry, if_neg differs]
      exact ⟨rfl, by simp [PyDict.lookup, Ne.symm differs]⟩
    obtain ⟨merged, accumulated, kept, changed⟩ := @induction
      (PyDict.insertEntry first value acc) distinctRest (by
        intro key later found
        have differs : key ≠ first := by
          rintro rfl
          rw [absent] at found
          cases found
        rw [(others key differs).1]
        exact merges key later ((others key differs).2.trans found))
    refine ⟨merged, ?_, ?_, ?_⟩
    · rw [accumulateDelta_cons_eq, isMerged]
      exact accumulated
    · intro key missing
      have differs : key ≠ first := by
        rintro rfl
        simp [PyDict.lookup] at missing
      rw [kept key ((others key differs).2.symm.trans missing), (others key differs).1]
    · intro key later found
      by_cases same : key = first
      · subst same
        have isFirst : firstValue = later := by simpa [PyDict.lookup] using found
        subst isFirst
        refine ⟨value, isMerged, ?_⟩
        rw [kept key absent, PyDict.lookup_insertEntry, if_pos rfl]
      · rw [(others key same).2] at found
        obtain ⟨result, isResult, inMerged⟩ := changed key later found
        rw [(others key same).1] at isResult
        exact ⟨result, isResult, inMerged⟩

theorem fieldMerge_eq {deltaValue : Json ν} (some : accValue.isNull = false)
    (merges : key ≠ "index".toList ∧ key ≠ "type".toList) :
    fieldMerge accValue key deltaValue = mergeValue accValue deltaValue := by
  refine if_neg ?_
  rw [some]
  exact not_or.2 ⟨Bool.false_ne_true, not_or.2 merges⟩

theorem fieldMerge_null (merges : key ≠ "index".toList ∧ key ≠ "type".toList) :
    fieldMerge accValue key .null = .ok accValue := by
  cases accValue with
  | null => rfl
  | _ => rw [fieldMerge_eq rfl merges, mergeValue]

theorem accumulateDelta_get (distinct : (delta.map Prod.fst).Nodup) (onlyAcc : OnlyKeys keys acc)
    (onlyDelta : OnlyKeys keys delta) (result : String → Json ν)
    (merges : ∀ key ∈ keys, fieldMerge (Json.get acc key) key.toList (Json.get delta key) =
      .ok (result key))
    (present : ∀ key ∈ keys, key = "index" ∨ key = "type" → Json.get delta key ≠ .null) :
    ∃ merged, accumulateDelta acc delta = .ok merged ∧ OnlyKeys keys merged ∧
      ∀ key ∈ keys, Json.get merged key = result key := by
  obtain ⟨merged, accumulated, kept, changed⟩ := @accumulateDelta_ok _ _ acc delta distinct (by
    intro key value found
    by_cases inside : key ∈ keys.map String.toList
    · obtain ⟨name, member, rfl⟩ := mem_map.1 inside
      refine ⟨result name, ?_⟩
      have isMerged := merges name member
      rwa [Json.get, Json.getD, Json.get, Json.getD, found] at isMerged
    · rw [onlyDelta key inside] at found
      cases found)
  refine ⟨merged, accumulated, ?_, ?_⟩
  · intro key outside
    rw [kept key (onlyDelta key outside), onlyAcc key outside]
  · intro key member
    have isMerged := merges key member
    cases found : PyDict.lookup key.toList delta with
    | none =>
      have isNull : Json.get delta key = .null := by rw [Json.get, Json.getD, found, getD_none]
      rw [isNull, fieldMerge_null] at isMerged
      · rw [Json.get, Json.getD, kept _ found]
        exact Except.ok.inj isMerged
      · constructor
        · intro same
          exact present key member (Or.inl (String.toList_injective same)) isNull
        · intro same
          exact present key member (Or.inr (String.toList_injective same)) isNull
    | some value =>
      obtain ⟨value', isValue, inMerged⟩ := changed key.toList value found
      have isDelta : Json.get delta key = value := by rw [Json.get, Json.getD, found, getD_some]
      rw [isDelta] at isMerged
      rw [Json.get, Json.getD, inMerged]
      exact Except.ok.inj (isValue.symm.trans isMerged)

structure ToolCall where
  id : Text
  type : Text
  name : Text
  arguments : Text
  deriving DecidableEq, Repr

structure AssistantMessage where
  content : Text
  calls : List ToolCall
  deriving DecidableEq, Repr

/-- What a delta carries of the call at an index: the id and the name if it is
the first fragment, a type if it is given, and a piece of the arguments. -/
structure Fragment where
  index : ℕ
  opening : Option (Text × Text)
  type : Option Text
  arguments : Text
  deriving DecidableEq, Repr

/-- A piece of the content, and fragments of calls. -/
structure MessageDelta where
  content : Text
  fragments : List Fragment
  deriving DecidableEq, Repr

def optionalText : Option Text → Json ν
  | some s => .str s
  | none => .null

/-- The `function` of a fragment. -/
structure WritesFunction (name : Option Text) (arguments : Text) (fn : Json.Fields ν) : Prop where
  distinct : (fn.map Prod.fst).Nodup
  only : OnlyKeys ["name", "arguments"] fn
  name : Json.get fn "name" = optionalText name
  arguments : RendersText arguments (Json.get fn "arguments")

/-- The entry of `tool_calls` for a fragment.  Only a later fragment without
arguments can do without `function`. -/
structure WritesFragment (fragment : Fragment) (entry : Json.Fields ν) : Prop where
  distinct : (entry.map Prod.fst).Nodup
  only : OnlyKeys ["index", "id", "type", "function"] entry
  index : Json.get entry "index" = .num (PyNumber.ofInt fragment.index)
  id : Json.get entry "id" = optionalText (fragment.opening.map Prod.fst)
  type : Json.get entry "type" = optionalText fragment.type
  function : (∃ fn, Json.get entry "function" = .obj fn ∧
      WritesFunction (fragment.opening.map Prod.snd) fragment.arguments fn) ∨
    Json.get entry "function" = .null ∧ fragment.opening = none ∧ fragment.arguments = []

def WritesEntry (fragment : Fragment) (json : Json ν) : Prop :=
  ∃ entry, json = .obj entry ∧ WritesFragment fragment entry

/-- The delta of a chunk.  Absent and null are the same everywhere. -/
structure WritesDelta (delta : MessageDelta) (fields : Json.Fields ν) : Prop where
  distinct : (fields.map Prod.fst).Nodup
  only : OnlyKeys ["role", "content", "tool_calls"] fields
  role : ∃ role, Json.get fields "role" = optionalText role
  content : RendersText delta.content (Json.get fields "content")
  calls : (Json.get fields "tool_calls" = .null ∧ delta.fragments = []) ∨
    ∃ items, Json.get fields "tool_calls" = .arr items ∧
      List.Forall₂ WritesEntry delta.fragments items

structure HoldsCall (index : ℕ) (call : ToolCall) (entry : Json.Fields ν) : Prop where
  only : OnlyKeys ["index", "id", "type", "function"] entry
  index : Json.get entry "index" = .num (PyNumber.ofInt index)
  id : Json.get entry "id" = .str call.id
  type : Json.get entry "type" = .str call.type
  function : ∃ fn, Json.get entry "function" = .obj fn ∧ OnlyKeys ["name", "arguments"] fn ∧
    Json.get fn "name" = .str call.name ∧ Json.get fn "arguments" = .str call.arguments

/-- The entries of the snapshot are the calls in index order. -/
def HoldsCalls (calls : List ToolCall) (items : List (Json ν)) : Prop :=
  items.length = calls.length ∧ ∀ index call, calls[index]? = some call →
    ∃ entry, items[index]? = some (.obj entry) ∧ HoldsCall index call entry

structure HoldsMessage (message : AssistantMessage) (snapshot : Json.Fields ν) : Prop where
  content : RendersText message.content (Json.get snapshot "content")
  calls : (Json.get snapshot "tool_calls" = .null ∧ message.calls = []) ∨
    ∃ items, Json.get snapshot "tool_calls" = .arr items ∧ HoldsCalls message.calls items

theorem HoldsCall.unique {index : ℕ} {first second : ToolCall} (holds : HoldsCall index first entry)
    (holds' : HoldsCall index second entry) : first = second := by
  have id := Json.str.inj (holds.id.symm.trans holds'.id)
  have type := Json.str.inj (holds.type.symm.trans holds'.type)
  obtain ⟨fn, isFunction, _, isName, isArguments⟩ := holds.function
  obtain ⟨fn', isFunction', _, isName', isArguments'⟩ := holds'.function
  obtain ⟨_, _, _, _⟩ := first
  simp_all

theorem HoldsCalls.unique {first second : List ToolCall} (holds : HoldsCalls first items)
    (holds' : HoldsCalls second items) : first = second := by
  have length : first.length = second.length := holds.1.symm.trans holds'.1
  apply ext_getElem length
  intro i inside inside'
  obtain ⟨entry, isEntry, holdsCall⟩ := holds.2 i _ (List.getElem?_eq_getElem inside)
  obtain ⟨entry', isEntry', holdsCall'⟩ := holds'.2 i _ (List.getElem?_eq_getElem inside')
  obtain rfl := Json.obj.inj (some.inj (isEntry.symm.trans isEntry'))
  exact holdsCall.unique holdsCall'

theorem HoldsMessage.unique_calls {first second : AssistantMessage}
    (holds : HoldsMessage first snapshot) (holds' : HoldsMessage second snapshot) :
    first.calls = second.calls := by
  rcases holds.calls with ⟨isNull, none⟩ | ⟨items, isList, calls⟩
  · rcases holds'.calls with ⟨_, none'⟩ | ⟨items, isList, _⟩
    · rw [none, none']
    · rw [isNull] at isList
      cases isList
  · rcases holds'.calls with ⟨isNull, _⟩ | ⟨items', isList', calls'⟩
    · rw [isNull] at isList
      cases isList
    · obtain rfl := Json.arr.inj (isList.symm.trans isList')
      exact calls.unique calls'

/-- The deltas of a stream, each normalized and merged into the snapshot. -/
def accumulateDeltas (snapshot : Json.Fields ν) (deltas : List (Json.Fields ν)) :
    Except PyException (Json.Fields ν) :=
  deltas.foldlM (fun acc delta => accumulateDelta acc (normalizeDelta delta)) snapshot

def functionType : Text := "function".toList

/-- A fragment after `_normalize_delta`. -/
structure NormalFragment (fragment : Fragment) (entry : Json.Fields ν) : Prop where
  distinct : (entry.map Prod.fst).Nodup
  only : OnlyKeys ["index", "id", "type", "function"] entry
  index : Json.get entry "index" = .num (PyNumber.ofInt fragment.index)
  id : Json.get entry "id" = optionalText (fragment.opening.map Prod.fst)
  type : Json.get entry "type" = .str (fragment.type.getD functionType)
  function : (∃ fn, Json.get entry "function" = .obj fn ∧ (fn.map Prod.fst).Nodup ∧
      OnlyKeys ["name", "arguments"] fn ∧
      Json.get fn "name" = optionalText (fragment.opening.map Prod.snd) ∧
      Json.get fn "arguments" = .str fragment.arguments) ∨
    Json.get entry "function" = .null ∧ fragment.opening = none ∧ fragment.arguments = []

variable {calls : List ToolCall} {fragment : Fragment} {call : ToolCall}
  {fragments : List Fragment} {message : AssistantMessage}
  {deltas : List MessageDelta}

theorem normalize_type (writes : WritesFragment fragment entry) :
    ∃ typed, typed = (if (Json.get entry "type").isNull then
        Json.put entry "type" (.text "function") else entry) ∧
      (typed.map Prod.fst).Nodup ∧ OnlyKeys ["index", "id", "type", "function"] typed ∧
      Json.get typed "type" = .str (fragment.type.getD functionType) ∧
      ∀ key, key ≠ "type" → Json.get typed key = Json.get entry key := by
  refine ⟨_, rfl, ?_⟩
  rw [writes.type]
  cases given : fragment.type with
  | none =>
    rw [optionalText, if_pos (show (Json.null : Json ν).isNull = true from rfl)]
    refine ⟨distinct_put writes.distinct _ _, writes.only.put (by simp) _, ?_, ?_⟩
    · rw [Json.get_put]
      rfl
    · intro key other
      rw [Json.get_put, if_neg other]
  | some type =>
    rw [optionalText, if_neg (by simp [Json.isNull])]
    refine ⟨writes.distinct, writes.only, ?_, fun key _ => rfl⟩
    rw [writes.type, given]
    rfl

theorem normalizeToolCall_normal {json : Json ν} (writes : WritesEntry fragment json) :
    ∃ entry, normalizeToolCall json = .obj entry ∧ NormalFragment fragment entry := by
  obtain ⟨entry, rfl, writes⟩ := writes
  obtain ⟨typed, isTyped, distinct, only, type, others⟩ := normalize_type writes
  have index := (others "index" (by decide)).trans writes.index
  have id := (others "id" (by decide)).trans writes.id
  have same := others "function" (by decide)
  rw [normalizeToolCall, ← isTyped, same]
  rcases writes.function with ⟨fn, isFn, function⟩ | ⟨isNull, later, noArguments⟩
  · rw [isFn]
    dsimp only
    rcases function.arguments with isText | ⟨empty, isNull⟩
    · rw [isText]
      refine ⟨typed, if_neg Bool.false_ne_true, distinct, only, index, id, type, Or.inl ?_⟩
      exact ⟨fn, same.trans isFn, function.distinct, function.only, function.name, isText⟩
    · rw [isNull]
      refine ⟨_, if_pos rfl, distinct_put distinct _ _, only.put (by simp) _, ?_, ?_, ?_,
        Or.inl ⟨Json.put fn "arguments" (.text ""), ?_, distinct_put function.distinct _ _,
          function.only.put (by simp) _, ?_, ?_⟩⟩
      · rw [Json.get_put, if_neg (by decide), index]
      · rw [Json.get_put, if_neg (by decide), id]
      · rw [Json.get_put, if_neg (by decide), type]
      · rw [Json.get_put, if_pos rfl]
      · rw [Json.get_put, if_neg (by decide), function.name]
      · rw [Json.get_put, empty]
        rfl
  · rw [isNull]
    exact ⟨typed, rfl, distinct, only, index, id, type,
      Or.inr ⟨same.trans isNull, later, noArguments⟩⟩

def ToolCall.opened (id name : Text) (fragment : Fragment) : ToolCall :=
  ⟨id, fragment.type.getD functionType, name, fragment.arguments⟩

/-- A later fragment adds to the arguments, and a fragment without a type
makes it a function. -/
def ToolCall.continued (call : ToolCall) (fragment : Fragment) : ToolCall :=
  { call with
    type := fragment.type.getD functionType
    arguments := call.arguments ++ fragment.arguments }

theorem NormalFragment.holds {id : Text} (normal : NormalFragment fragment entry)
    (opening : fragment.opening = some (id, name)) :
    HoldsCall fragment.index (.opened id name fragment) entry where
  only := normal.only
  index := normal.index
  id := by
    rw [normal.id, opening]
    rfl
  type := normal.type
  function := by
    rcases normal.function with ⟨fn, isFn, distinct, only, isName, arguments⟩ | ⟨_, later, _⟩
    · refine ⟨fn, isFn, only, ?_, arguments⟩
      rw [isName, opening]
      rfl
    · rw [opening] at later
      cases later

theorem accumulateDelta_function {fn : Json.Fields ν} (onlyFn : OnlyKeys ["name", "arguments"] fn)
    (onlyDelta : OnlyKeys ["name", "arguments"] delta) (distinct : (delta.map Prod.fst).Nodup)
    (fnName : Json.get fn "name" = .str name) (deltaName : Json.get delta "name" = .null)
    (fnArguments : Json.get fn "arguments" = .str before)
    (deltaArguments : Json.get delta "arguments" = .str piece) :
    ∃ merged, accumulateDelta fn delta = .ok merged ∧ OnlyKeys ["name", "arguments"] merged ∧
      Json.get merged "name" = .str name ∧
      Json.get merged "arguments" = .str (before ++ piece) := by
  obtain ⟨merged, accumulated, only, result⟩ := accumulateDelta_get distinct onlyFn onlyDelta
    (fun key => if key = "name" then .str name else .str (before ++ piece))
    (by
      intro key member
      rcases mem_pair.1 member with rfl | rfl
      · rw [fnName, deltaName]
        exact fieldMerge_null (by decide)
      · rw [fnArguments, deltaArguments, if_neg (by decide)]
        rw [fieldMerge_eq rfl (by decide), mergeValue])
    (by
      intro key member special
      rcases mem_pair.1 member with rfl | rfl
      · exact absurd special (by decide)
      · exact absurd special (by decide))
  exact ⟨merged, accumulated, only, result "name" (by simp), result "arguments" (by simp)⟩

theorem HoldsCall.merge (holds : HoldsCall fragment.index call acc)
    (normal : NormalFragment fragment entry) (later : fragment.opening = none) :
    ∃ merged, accumulateDelta acc entry = .ok merged ∧
      HoldsCall fragment.index (call.continued fragment) merged := by
  obtain ⟨fn, isFn, onlyFn, name, arguments⟩ := holds.function
  have noId : Json.get entry "id" = .null := by
    rw [normal.id, later]
    rfl
  have merges : ∃ result, fieldMerge (Json.get acc "function") "function".toList
      (Json.get entry "function") = .ok (.obj result) ∧
        OnlyKeys ["name", "arguments"] result ∧ Json.get result "name" = .str call.name ∧
        Json.get result "arguments" = .str (call.arguments ++ fragment.arguments) := by
    rw [isFn]
    rcases normal.function with ⟨delta, isDelta, distinct, only, isName, piece⟩ | ⟨isNull, _, none⟩
    · rw [later] at isName
      obtain ⟨merged, accumulated, onlyMerged, mergedName, mergedArguments⟩ :=
        accumulateDelta_function onlyFn only distinct name isName arguments piece
      refine ⟨merged, ?_, onlyMerged, mergedName, mergedArguments⟩
      rw [isDelta, fieldMerge_eq rfl (by decide), mergeValue, accumulated]
      rfl
    · rw [isNull, none, append_nil]
      exact ⟨fn, rfl, onlyFn, name, arguments⟩
  obtain ⟨function, isFunction, onlyFunction, functionName, functionArguments⟩ := merges
  obtain ⟨merged, accumulated, only, result⟩ := accumulateDelta_get normal.distinct holds.only
    normal.only
    (fun key => if key = "index" then .num (PyNumber.ofInt fragment.index)
      else if key = "id" then .str call.id
      else if key = "type" then .str (fragment.type.getD functionType) else .obj function)
    (by
      intro key member
      simp only [mem_cons, not_mem_nil, or_false] at member
      rcases member with rfl | rfl | rfl | rfl
      · rw [normal.index]
        exact if_pos (Or.inr (Or.inl rfl))
      · rw [holds.id, noId]
        exact fieldMerge_null (by decide)
      · rw [normal.type]
        exact if_pos (Or.inr (Or.inr rfl))
      · exact isFunction)
    (by
      intro key _ special
      rcases special with rfl | rfl
      · rw [normal.index]
        simp
      · rw [normal.type]
        simp)
  exact ⟨merged, accumulated, only, result "index" (by simp), result "id" (by simp),
    result "type" (by simp), function, result "function" (by simp), onlyFunction,
    functionName, functionArguments⟩

def applyFragment (calls : List ToolCall) (fragment : Fragment) : List ToolCall :=
  match fragment.opening with
  | some (id, name) => calls ++ [.opened id name fragment]
  | none => calls.modify fragment.index (·.continued fragment)

/-- Each fragment opens the next call or goes on with one that is open. -/
def FragmentsInOrder : ℕ → List Fragment → Prop
  | _, [] => True
  | opened, fragment :: rest =>
    match fragment.opening with
    | some _ => fragment.index = opened ∧ FragmentsInOrder (opened + 1) rest
    | none => fragment.index < opened ∧ FragmentsInOrder opened rest

theorem length_applyFragment (calls : List ToolCall) (fragment : Fragment) :
    (applyFragment calls fragment).length =
      if fragment.opening.isSome then calls.length + 1 else calls.length := by
  rw [applyFragment]
  cases fragment.opening with
  | none | some => simp

theorem FragmentsInOrder.cons {calls : List ToolCall} {fragment : Fragment}
    {rest : List Fragment} (inOrder : FragmentsInOrder calls.length (fragment :: rest)) :
    (fragment.opening.isSome = true ∧ fragment.index = calls.length ∨
      fragment.opening = none ∧ fragment.index < calls.length) ∧
    FragmentsInOrder (applyFragment calls fragment).length rest := by
  rw [length_applyFragment]
  rw [FragmentsInOrder] at inOrder
  cases opening : fragment.opening with
  | none =>
    rw [opening] at inOrder
    exact ⟨Or.inr ⟨rfl, inOrder.1⟩, inOrder.2⟩
  | some parts =>
    rw [opening] at inOrder
    exact ⟨Or.inl ⟨rfl, inOrder.1⟩, inOrder.2⟩

theorem FragmentsInOrder.append {front back : List Fragment}
    (inOrder : FragmentsInOrder calls.length (front ++ back)) :
    FragmentsInOrder calls.length front ∧
      FragmentsInOrder (front.foldl applyFragment calls).length back := by
  induction front generalizing calls with
  | nil => exact ⟨trivial, inOrder⟩
  | cons fragment rest induction =>
    obtain ⟨_, later⟩ := FragmentsInOrder.cons inOrder
    obtain ⟨first, second⟩ := induction later
    refine ⟨?_, second⟩
    rw [length_applyFragment] at first
    rw [cons_append, FragmentsInOrder] at inOrder
    rw [FragmentsInOrder]
    cases opening : fragment.opening with
    | none | some parts =>
      rw [opening] at inOrder first
      exact ⟨inOrder.1, first⟩

theorem HoldsCalls.append (holds : HoldsCalls calls items)
    (new : HoldsCall calls.length call entry) :
    HoldsCalls (calls ++ [call]) (items ++ [.obj entry]) := by
  refine ⟨by simp [holds.1], ?_⟩
  intro index found isFound
  by_cases old : index < calls.length
  · rw [List.getElem?_append_left old] at isFound
    rw [List.getElem?_append_left (holds.1 ▸ old)]
    exact holds.2 index found isFound
  · rw [List.getElem?_append_right (by omega)] at isFound
    rw [List.getElem?_append_right (by rw [holds.1]; omega), holds.1]
    have last : index - calls.length = 0 := by
      have below := (List.getElem?_eq_some_iff.1 isFound).1
      rw [length_singleton] at below
      omega
    rw [last] at isFound ⊢
    obtain rfl : call = found := by simpa using isFound
    have isLast : index = calls.length := by omega
    exact ⟨entry, rfl, isLast ▸ new⟩

theorem HoldsCalls.set {i : ℕ} {change : ToolCall → ToolCall} (holds : HoldsCalls calls items)
    (here : calls[i]? = some call) (new : HoldsCall i (change call) entry) :
    HoldsCalls (calls.modify i change) (items.set i (.obj entry)) := by
  refine ⟨by simp [holds.1], ?_⟩
  intro index found isFound
  have inside : i < items.length := holds.1 ▸ (List.getElem?_eq_some_iff.1 here).1
  rw [List.getElem?_modify] at isFound
  by_cases same : i = index
  · subst same
    rw [here] at isFound
    obtain rfl : change call = found := by simpa using isFound
    exact ⟨entry, by rw [List.getElem?_set_self inside], new⟩
  · have isOld : calls[index]? = some found := by simpa [same] using isFound
    rw [List.getElem?_set_ne same]
    exact holds.2 index found isOld

theorem mergeEntries_open (holds : HoldsCalls calls items) (normal : NormalFragment fragment entry)
    (next : fragment.index = calls.length) :
    mergeEntries items (.obj entry :: rest) = mergeEntries (items ++ [.obj entry]) rest := by
  have isIndex := Json.lookup_of_get normal.index (by simp)
  have beyond : listIndex? items fragment.index = none := by
    have negative : ¬ (fragment.index : ℤ) < 0 := by omega
    have length := holds.1
    rw [listIndex?, if_neg (by omega)]
  have place : listInsert items fragment.index (.obj entry) = items ++ [.obj entry] := by
    have negative : ¬ (fragment.index : ℤ) < 0 := by omega
    rw [listInsert, if_neg negative, Int.toNat_natCast, next, holds.1, Nat.min_self,
      ← holds.1, insertIdx_length_self]
  rw [mergeEntries, isIndex]
  simp only [Json.toInt?, Json.toNumber?, bind_some, PyNumber.toInt?_ofInt, beyond, place]

theorem mergeEntries_later (holds : HoldsCalls calls items) (normal : NormalFragment fragment entry)
    (later : fragment.opening = none) (here : calls[fragment.index]? = some call) :
    ∃ merged, HoldsCall fragment.index (call.continued fragment) merged ∧
      mergeEntries items (.obj entry :: rest) =
        mergeEntries (items.set fragment.index (.obj merged)) rest := by
  have isIndex := Json.lookup_of_get normal.index (by simp)
  obtain ⟨acc, found, holdsCall⟩ := holds.2 fragment.index call here
  obtain ⟨merged, accumulated, holdsMerged⟩ := holdsCall.merge normal later
  have inside : fragment.index < items.length := (List.getElem?_eq_some_iff.1 found).1
  have place : listIndex? items fragment.index = some fragment.index := by
    have negative : ¬ (fragment.index : ℤ) < 0 := by omega
    rw [listIndex?, if_neg negative, if_pos (by omega), Int.toNat_natCast]
  refine ⟨merged, holdsMerged, ?_⟩
  rw [mergeEntries, isIndex]
  simp only [Json.toInt?, Json.toNumber?, bind_some, PyNumber.toInt?_ofInt, place, found,
    accumulated]
  rfl

section

variable (writes : List.Forall₂ WritesEntry fragments entries)
  (holds : HoldsCalls calls items)
  (inOrder : FragmentsInOrder calls.length fragments)

include writes holds inOrder

theorem mergeEntries_fragments :
    ∃ merged, mergeEntries items (entries.map normalizeToolCall) = .ok merged ∧
      HoldsCalls (fragments.foldl applyFragment calls) merged := by
  induction writes generalizing calls items with
  | nil => exact ⟨items, by rw [map_nil, mergeEntries], holds⟩
  | @cons fragment json rest others isWritten _ induction =>
    obtain ⟨entry, isEntry, normal⟩ := normalizeToolCall_normal isWritten
    obtain ⟨place, later⟩ := inOrder.cons
    rw [map_cons, isEntry, foldl_cons]
    rcases place with ⟨isOpening, next⟩ | ⟨continues, inside⟩
    · obtain ⟨⟨id, name⟩, opening⟩ := isSome_iff_exists.1 isOpening
      have applied : applyFragment calls fragment = calls ++ [.opened id name fragment] := by
        rw [applyFragment, opening]
      rw [mergeEntries_open holds normal next]
      rw [applied] at later ⊢
      exact induction (holds.append (next ▸ normal.holds opening)) later
    · obtain ⟨call, here⟩ : ∃ call, calls[fragment.index]? = some call :=
        ⟨_, List.getElem?_eq_getElem inside⟩
      have applied : applyFragment calls fragment =
          calls.modify fragment.index (·.continued fragment) := by
        rw [applyFragment, continues]
      obtain ⟨merged, holdsMerged, steps⟩ := mergeEntries_later holds normal continues here
      rw [steps]
      rw [applied] at later ⊢
      exact induction (holds.set here holdsMerged) later

theorem holdsCalls_first (fresh : ∀ fragment ∈ fragments, calls.length ≤ fragment.index)
    (single : (fragments.map Fragment.index).Nodup) :
    HoldsCalls (fragments.foldl applyFragment calls) (items ++ entries.map normalizeToolCall) := by
  induction writes generalizing calls items with
  | nil => simpa using holds
  | @cons fragment json rest others isWritten _ induction =>
    obtain ⟨entry, isEntry, normal⟩ := normalizeToolCall_normal isWritten
    obtain ⟨place, later⟩ := inOrder.cons
    obtain ⟨alone, distinct⟩ := nodup_cons.1 single
    rcases place with ⟨isOpening, next⟩ | ⟨_, inside⟩
    · obtain ⟨⟨id, name⟩, opening⟩ := isSome_iff_exists.1 isOpening
      have applied : applyFragment calls fragment = calls ++ [.opened id name fragment] := by
        rw [applyFragment, opening]
      rw [map_cons, isEntry, foldl_cons, ← singleton_append, ← append_assoc]
      rw [applied] at later ⊢
      refine induction (holds.append (next ▸ normal.holds opening)) later ?_ distinct
      intro other member
      have behind := fresh other (mem_cons_of_mem _ member)
      have differs : other.index ≠ fragment.index := fun same =>
        alone (same ▸ mem_map_of_mem member)
      simp only [length_append, length_singleton]
      omega
    · exact absurd (fresh fragment mem_cons_self) (not_le.2 inside)

end

/-- The snapshot of what has come so far. -/
structure Snapshot (message : AssistantMessage) (snapshot : Json.Fields ν) : Prop where
  only : OnlyKeys ["role", "content", "tool_calls"] snapshot
  role : ∃ role, Json.get snapshot "role" = optionalText role
  holds : HoldsMessage message snapshot

def AssistantMessage.extended (message : AssistantMessage) (delta : MessageDelta) :
    AssistantMessage :=
  ⟨message.content ++ delta.content, delta.fragments.foldl applyFragment message.calls⟩

theorem fieldMerge_role {before : Option Text} {role : Option Text} :
    ∃ after, fieldMerge (optionalText before : Json ν) "role".toList (optionalText role) =
      .ok (optionalText after) := by
  cases before with
  | none => exact ⟨role, if_pos (Or.inl rfl)⟩
  | some before =>
    cases role with
    | none => exact ⟨some before, fieldMerge_null (by decide)⟩
    | some role =>
      refine ⟨some (before ++ role), ?_⟩
      rfl

theorem fieldMerge_content {acc delta : Json ν} (ofAcc : RendersText before acc)
    (ofDelta : RendersText piece delta) :
    ∃ after, fieldMerge acc "content".toList delta = .ok after ∧
      RendersText (before ++ piece) after := by
  rcases ofAcc with rfl | ⟨rfl, rfl⟩
  · rcases ofDelta with rfl | ⟨rfl, rfl⟩
    · refine ⟨.str (before ++ piece), ?_, Or.inl rfl⟩
      rw [fieldMerge_eq rfl (by decide), mergeValue]
    · exact ⟨.str before, fieldMerge_null (by decide), Or.inl (by rw [append_nil])⟩
  · exact ⟨delta, if_pos (Or.inl rfl), ofDelta⟩

theorem fieldMerge_calls {acc : Json ν} (holds : (acc = .null ∧ message.calls = []) ∨
      ∃ items, acc = .arr items ∧ HoldsCalls message.calls items)
    (writes : List.Forall₂ WritesEntry fragments entries)
    (inOrder : FragmentsInOrder message.calls.length fragments)
    (single : (fragments.map Fragment.index).Nodup) :
    ∃ merged, fieldMerge acc "tool_calls".toList (.arr (entries.map normalizeToolCall)) =
        .ok (.arr merged) ∧
      HoldsCalls (fragments.foldl applyFragment message.calls) merged := by
  have none : HoldsCalls [] ([] : List (Json ν)) := ⟨rfl, by simp⟩
  rcases holds with ⟨rfl, noCalls⟩ | ⟨items, rfl, holds⟩
  · rw [noCalls] at inOrder ⊢
    refine ⟨_, if_pos (Or.inl rfl), ?_⟩
    have first := holdsCalls_first writes none inOrder (fun _ _ => Nat.zero_le _) single
    rwa [nil_append] at first
  · rw [fieldMerge_eq rfl (by decide), mergeValue]
    cases items with
    | nil =>
      have noCalls : message.calls = [] := eq_nil_of_length_eq_zero holds.1.symm
      rw [noCalls] at inOrder ⊢
      exact ⟨_, if_pos rfl, holdsCalls_first writes none inOrder (fun _ _ => Nat.zero_le _) single⟩
    | cons item rest =>
      -- The entries are dictionaries, so the list is merged by index.
      have notScalar : (item :: rest).all isScalar = false := by
        obtain ⟨call, here⟩ : ∃ call, message.calls[0]? = some call :=
          ⟨_, List.getElem?_eq_getElem (by rw [← holds.1]; exact Nat.zero_lt_succ _)⟩
        obtain ⟨entry, isFirst, _⟩ := holds.2 0 call here
        obtain rfl : item = .obj entry := by simpa using isFirst
        rfl
      obtain ⟨merged, isMerged, holdsMerged⟩ := mergeEntries_fragments writes holds inOrder
      refine ⟨merged, ?_, holdsMerged⟩
      simp only [notScalar, isMerged]
      rfl

omit [PyNumber ν] in
theorem OnlyKeys.normalizeDelta (only : OnlyKeys keys fields) :
    OnlyKeys keys (normalizeDelta fields) := by
  intro key outside
  rw [PyDict.lookup_eq_none, normalizeDelta_keys, ← PyDict.lookup_eq_none]
  exact only key outside

omit [PyNumber ν] in
theorem normalizeDelta_role {role : Option Text}
    (given : Json.get fields "role" = optionalText role) :
    ∃ role, Json.get (normalizeDelta fields) "role" = optionalText role := by
  have atRole : ∃ role, Json.get (normalizeRole fields) "role" = optionalText role := by
    rw [normalizeRole]
    split
    · refine ⟨some "assistant".toList, ?_⟩
      rw [Json.get_put, if_pos rfl]
      rfl
    · exact ⟨role, given⟩
  rw [normalizeDelta]
  split
  · rw [Json.get_put, if_neg (by decide)]
    exact atRole
  · exact atRole

omit [PyNumber ν] in
theorem normalizeDelta_calls (given : Json.get fields "tool_calls" = .arr items) :
    Json.get (normalizeDelta fields) "tool_calls" = .arr (items.map normalizeToolCall) := by
  have same : Json.get (normalizeRole fields) "tool_calls" = .arr items := by
    rw [normalizeRole_get fields (by decide), given]
  rw [normalizeDelta, same]
  exact (Json.get_put ..).trans (if_pos rfl)

omit [PyNumber ν] in
theorem normalizeDelta_noCalls (given : Json.get fields "tool_calls" = .null) :
    Json.get (normalizeDelta fields) "tool_calls" = .null := by
  have same : Json.get (normalizeRole fields) "tool_calls" = .null := by
    rw [normalizeRole_get fields (by decide), given]
  rw [normalizeDelta, same]
  exact same

theorem Snapshot.step {delta : MessageDelta} (holding : Snapshot message snapshot)
    (writes : WritesDelta delta fields)
    (inOrder : FragmentsInOrder message.calls.length delta.fragments)
    (single : (delta.fragments.map Fragment.index).Nodup) :
    ∃ merged, accumulateDelta snapshot (normalizeDelta fields) = .ok merged ∧
      Snapshot (message.extended delta) merged := by
  obtain ⟨before, snapshotRole⟩ := holding.role
  obtain ⟨given, deltaRole⟩ := writes.role
  obtain ⟨role, isRole⟩ := normalizeDelta_role deltaRole
  obtain ⟨roleAfter, mergesRole⟩ := @fieldMerge_role ν _ before role
  have content := writes.content
  rw [← normalizeDelta_get fields (by decide) (by decide)] at content
  obtain ⟨contentAfter, mergesContent, rendersContent⟩ :=
    fieldMerge_content holding.holds.content content
  have calls : ∃ after, fieldMerge (Json.get snapshot "tool_calls") "tool_calls".toList
      (Json.get (normalizeDelta fields) "tool_calls") = .ok after ∧
      ((after = .null ∧ (message.extended delta).calls = []) ∨
        ∃ items, after = .arr items ∧ HoldsCalls (message.extended delta).calls items) := by
    rcases writes.calls with ⟨noCalls, noFragments⟩ | ⟨entries, isList, written⟩
    · rw [normalizeDelta_noCalls noCalls, AssistantMessage.extended, noFragments]
      exact ⟨_, fieldMerge_null (by decide), holding.holds.calls⟩
    · obtain ⟨items, isMerged, holdsItems⟩ :=
        fieldMerge_calls holding.holds.calls written inOrder single
      rw [normalizeDelta_calls isList]
      exact ⟨_, isMerged, Or.inr ⟨items, rfl, holdsItems⟩⟩
  obtain ⟨callsAfter, mergesCalls, holdsCalls⟩ := calls
  have distinct : ((normalizeDelta fields).map Prod.fst).Nodup := by
    rw [normalizeDelta_keys]
    exact writes.distinct
  obtain ⟨merged, accumulated, only, result⟩ := accumulateDelta_get distinct holding.only
    writes.only.normalizeDelta
    (fun key => if key = "role" then optionalText roleAfter
      else if key = "content" then contentAfter else callsAfter)
    (by
      intro key member
      simp only [mem_cons, not_mem_nil, or_false] at member
      rcases member with rfl | rfl | rfl
      · rw [snapshotRole, isRole]
        exact mergesRole
      · exact mergesContent
      · exact mergesCalls)
    (by
      intro key member special
      rcases special with rfl | rfl
      · exact absurd member (by decide)
      · exact absurd member (by decide))
  have contentResult : Json.get merged "content" = contentAfter := result "content" (by simp)
  have callsResult : Json.get merged "tool_calls" = callsAfter := result "tool_calls" (by simp)
  refine ⟨merged, accumulated, only, ⟨roleAfter, result "role" (by simp)⟩, ?_, ?_⟩
  · rw [contentResult]
    exact rendersContent
  · rw [callsResult]
    exact holdsCalls

theorem Snapshot.run (holding : Snapshot message snapshot)
    (writes : List.Forall₂ WritesDelta deltas chunks)
    (inOrder : FragmentsInOrder message.calls.length (deltas.flatMap MessageDelta.fragments))
    (single : ∀ delta ∈ deltas, (delta.fragments.map Fragment.index).Nodup) :
    ∃ merged, accumulateDeltas snapshot chunks = .ok merged ∧
      Snapshot (deltas.foldl AssistantMessage.extended message) merged := by
  induction writes generalizing message snapshot with
  | nil => exact ⟨snapshot, rfl, holding⟩
  | @cons delta fields rest others isWritten _ induction =>
    obtain ⟨here, later⟩ := inOrder.append
    obtain ⟨merged, accumulated, holdsMerged⟩ :=
      holding.step isWritten here (single delta mem_cons_self)
    obtain ⟨final, isFinal, holdsFinal⟩ := induction holdsMerged later
      (fun other member => single other (mem_cons_of_mem _ member))
    refine ⟨final, ?_, holdsFinal⟩
    rw [accumulateDeltas, foldlM_cons, accumulated]
    exact isFinal

def fragmentsOf (deltas : List MessageDelta) : List Fragment :=
  deltas.flatMap MessageDelta.fragments

/-- The fragments of one call carry it: the first one its id, its name and its
type, a function's type being left out at will, and all of them together its
arguments. -/
structure Carries (call : ToolCall) (fragments : List Fragment) : Prop where
  opening : ∃ first later, fragments = first :: later ∧
    first.opening = some (call.id, call.name) ∧ first.type.getD functionType = call.type ∧
    ∀ fragment ∈ later, ∀ type ∈ fragment.type, type = call.type
  arguments : (fragments.map Fragment.arguments).flatten = call.arguments

/-- The deltas deliver the message: the content in pieces, the calls opened in
index order, and in one delta at most one fragment of each call. -/
structure Delivers (message : AssistantMessage) (deltas : List MessageDelta) : Prop where
  content : (deltas.map MessageDelta.content).flatten = message.content
  inOrder : FragmentsInOrder 0 (fragmentsOf deltas)
  bounded : ∀ fragment ∈ fragmentsOf deltas, fragment.index < message.calls.length
  calls : ∀ i call, message.calls[i]? = some call →
    Carries call ((fragmentsOf deltas).filter fun fragment => fragment.index = i)
  single : ∀ delta ∈ deltas, (delta.fragments.map Fragment.index).Nodup

def TypesRepeated (message : AssistantMessage) (deltas : List MessageDelta) : Prop :=
  ∀ i call, message.calls[i]? = some call → call.type ≠ functionType →
    ∀ last ∈ ((fragmentsOf deltas).filter fun fragment => fragment.index = i).getLast?,
      last.type = some call.type

theorem getElem?_foldl_applyFragment {fragments : List Fragment} {calls : List ToolCall}
    (inOrder : FragmentsInOrder calls.length fragments) (i : ℕ) :
    (fragments.foldl applyFragment calls)[i]? =
      match calls[i]? with
      | some call =>
        some ((fragments.filter fun fragment => fragment.index = i).foldl ToolCall.continued call)
      | none =>
        match fragments.filter fun fragment => fragment.index = i with
        | [] => none
        | first :: later => first.opening.map fun opening =>
          later.foldl ToolCall.continued (.opened opening.1 opening.2 first) := by
  induction fragments generalizing calls with
  | nil =>
    rw [foldl_nil]
    cases calls[i]? with
    | none | some => rfl
  | cons fragment rest induction =>
    obtain ⟨place, later⟩ := inOrder.cons
    rw [foldl_cons, induction later]
    rcases place with ⟨isOpening, next⟩ | ⟨continues, inside⟩
    · obtain ⟨⟨id, name⟩, opening⟩ := isSome_iff_exists.1 isOpening
      rw [applyFragment, opening]
      rcases lt_trichotomy i calls.length with old | rfl | new
      · rw [List.getElem?_append_left old, filter_cons_of_neg (by rw [decide_eq_true_eq]; omega)]
      · rw [List.getElem?_eq_none (Nat.le_refl _), List.getElem?_concat_length,
          filter_cons_of_pos (by rw [decide_eq_true_eq, next])]
        dsimp only
        rw [opening]
        rfl
      · rw [List.getElem?_eq_none (by rw [length_append, length_singleton]; omega),
          List.getElem?_eq_none (Nat.le_of_lt new),
          filter_cons_of_neg (by rw [decide_eq_true_eq]; omega)]
    · rw [applyFragment, continues]
      rw [List.getElem?_modify]
      by_cases same : fragment.index = i
      · subst same
        rw [List.getElem?_eq_getElem inside]
        simp
      · simp [same]

theorem foldl_extended_content (deltas : List MessageDelta) (message : AssistantMessage) :
    (deltas.foldl AssistantMessage.extended message).content =
      message.content ++ (deltas.map MessageDelta.content).flatten := by
  induction deltas generalizing message with
  | nil => simp
  | cons delta rest induction =>
    rw [foldl_cons, induction]
    simp [AssistantMessage.extended]

theorem foldl_extended_calls (deltas : List MessageDelta) (message : AssistantMessage) :
    (deltas.foldl AssistantMessage.extended message).calls =
      (fragmentsOf deltas).foldl applyFragment message.calls := by
  induction deltas generalizing message with
  | nil => rfl
  | cons delta rest induction =>
    have parts : fragmentsOf (delta :: rest) = delta.fragments ++ fragmentsOf rest := rfl
    rw [foldl_cons, induction, parts, foldl_append]
    rfl

theorem foldl_continued (later : List Fragment) (call : ToolCall) :
    later.foldl ToolCall.continued call = { call with
        type := (later.getLast?.map fun last => last.type.getD functionType).getD call.type
        arguments := call.arguments ++ (later.map Fragment.arguments).flatten } := by
  induction later generalizing call with
  | nil => simp
  | cons fragment rest induction =>
    rw [foldl_cons, induction]
    cases rest with
    | nil => simp [ToolCall.continued]
    | cons next more =>
      obtain ⟨last, isLast⟩ : ∃ last, (next :: more).getLast? = some last :=
        ⟨_, List.getLast?_eq_some_getLast (cons_ne_nil _ _)⟩
      simp [ToolCall.continued, List.getLast?_cons_cons, isLast]

theorem Carries.result (carries : Carries call fragments)
    (repeated : call.type ≠ functionType → ∀ last ∈ fragments.getLast?,
      last.type = some call.type) :
    ∃ first later, fragments = first :: later ∧ (first.opening.map fun opening =>
        later.foldl ToolCall.continued (.opened opening.1 opening.2 first)) = some call := by
  obtain ⟨first, later, rfl, opening, type, same⟩ := carries.opening
  refine ⟨first, later, rfl, ?_⟩
  rw [opening, map_some, foldl_continued]
  have arguments : first.arguments ++ (later.map Fragment.arguments).flatten =
      call.arguments := by
    simpa using carries.arguments
  have kept : (later.getLast?.map fun last => last.type.getD functionType).getD
      (first.type.getD functionType) = call.type := by
    cases last : later.getLast? with
    | none => exact type
    | some fragment =>
      have member := mem_of_getLast? last
      rw [map_some]
      cases given : fragment.type with
      | some other => exact same fragment member other given
      | none =>
        by_contra differs
        have isLast : (first :: later).getLast? = some fragment := by
          rw [List.getLast?_cons, last, getD_some]
        have missing := repeated (Ne.symm differs) fragment isLast
        rw [given] at missing
        cases missing
  simp only [ToolCall.opened, arguments, kept]

theorem Delivers.message_eq (delivers : Delivers message deltas)
    (repeated : TypesRepeated message deltas) :
    deltas.foldl AssistantMessage.extended ⟨[], []⟩ = message := by
  have content := foldl_extended_content deltas ⟨[], []⟩
  have calls := foldl_extended_calls deltas ⟨[], []⟩
  rw [delivers.content] at content
  have sameCalls : (fragmentsOf deltas).foldl applyFragment [] = message.calls := by
    apply ext_getElem?
    intro i
    rw [@getElem?_foldl_applyFragment _ [] delivers.inOrder i]
    cases here : message.calls[i]? with
    | none =>
      have none : ((fragmentsOf deltas).filter fun fragment => fragment.index = i) = [] := by
        rw [filter_eq_nil_iff]
        intro fragment member
        have inside := delivers.bounded fragment member
        have beyond := List.getElem?_eq_none_iff.1 here
        rw [decide_eq_true_eq]
        omega
      simp [none]
    | some call =>
      obtain ⟨first, later, isSplit, result⟩ :=
        (delivers.calls i call here).result (repeated i call here)
      rw [isSplit]
      exact result
  rw [sameCalls] at calls
  exact congrArg₂ AssistantMessage.mk content calls

theorem accumulateDeltas_extended (writes : List.Forall₂ WritesDelta deltas chunks)
    (inOrder : FragmentsInOrder 0 (fragmentsOf deltas))
    (single : ∀ delta ∈ deltas, (delta.fragments.map Fragment.index).Nodup) :
    ∃ snapshot, accumulateDeltas [] chunks = .ok snapshot ∧
      HoldsMessage (deltas.foldl AssistantMessage.extended ⟨[], []⟩) snapshot := by
  have begun : Snapshot ⟨[], []⟩ ([] : Json.Fields ν) :=
    { only := fun _ _ => rfl
      role := ⟨none, rfl⟩
      holds := ⟨Or.inr ⟨rfl, rfl⟩, Or.inl ⟨rfl, rfl⟩⟩ }
  obtain ⟨snapshot, accumulated, holding⟩ := begun.run writes inOrder single
  exact ⟨snapshot, accumulated, holding.holds⟩

/-- **Fragments.** However a message is cut into deltas, their snapshot is
made without an error and holds the message, if the calls that are no
functions have their type in their last fragment. -/
theorem accumulateDeltas_delivers {message : AssistantMessage} {deltas : List MessageDelta}
    {chunks : List (Json.Fields ν)} (delivers : Delivers message deltas)
    (repeated : TypesRepeated message deltas) (writes : List.Forall₂ WritesDelta deltas chunks) :
    ∃ snapshot, accumulateDeltas [] chunks = .ok snapshot ∧ HoldsMessage message snapshot := by
  have extended := accumulateDeltas_extended writes delivers.inOrder delivers.single
  rwa [delivers.message_eq repeated] at extended

section Streams

def twoFragments (type : Text) : List MessageDelta :=
  [⟨"ok".toList, [⟨0, some ("c".toList, "f".toList), some type, "1".toList⟩]⟩,
    ⟨[], [⟨0, none, none, "2".toList⟩]⟩]

def twoFragmentsMessage (type : Text) : AssistantMessage :=
  ⟨"ok".toList, [⟨"c".toList, type, "f".toList, "12".toList⟩]⟩

def twoFragmentsChunks (type : Text) : List (Json.Fields ℤ) :=
  [[("role".toList, .text "assistant"), ("content".toList, .text "ok"),
      ("tool_calls".toList, .arr [.obj [("index".toList, .num 0), ("id".toList, .text "c"),
        ("type".toList, .str type),
        ("function".toList, .obj [("name".toList, .text "f"), ("arguments".toList, .text "1")])]])],
    [("content".toList, .null), ("tool_calls".toList, .arr [.obj [("index".toList, .num 0),
        ("function".toList, .obj [("arguments".toList, .text "2")])]])]]

theorem twoFragments_delivers (type : Text) :
    Delivers (twoFragmentsMessage type) (twoFragments type) where
  content := rfl
  inOrder := ⟨rfl, Nat.zero_lt_one, trivial⟩
  bounded := by
    intro fragment member
    simp only [fragmentsOf, twoFragments, flatMap_cons, flatMap_nil, mem_append,
      mem_singleton, not_mem_nil, or_false] at member
    rcases member with rfl | rfl <;> exact Nat.zero_lt_one
  calls := by
    intro i call here
    cases i with
    | zero =>
      obtain rfl : _ = call := some.inj here
      refine ⟨⟨_, _, rfl, rfl, rfl, ?_⟩, rfl⟩
      intro fragment member other given
      obtain rfl := mem_singleton.1 member
      cases given
    | succ i => cases here
  single := by
    intro delta member
    simp only [twoFragments, mem_cons, not_mem_nil, or_false] at member
    rcases member with rfl | rfl <;> exact nodup_singleton _

def deltaKeys : List Text := ["role".toList, "content".toList, "tool_calls".toList]

def openingKeys : List Text :=
  ["index".toList, "id".toList, "type".toList, "function".toList]

theorem twoFragments_writes (type : Text) :
    List.Forall₂ WritesDelta (twoFragments type) (twoFragmentsChunks type) := by
  have ofDelta : ∀ key ∈ deltaKeys,
      key ∈ ["role", "content", "tool_calls"].map String.toList := by decide
  have ofCall : ∀ key ∈ openingKeys,
      key ∈ ["index", "id", "type", "function"].map String.toList := by decide
  have deltaDistinct : deltaKeys.Nodup := by decide
  have callDistinct : openingKeys.Nodup := by decide
  refine .cons ?_ (.cons ?_ .nil)
  · refine ⟨deltaDistinct, .of_keys rfl ofDelta, ⟨some _, rfl⟩, Or.inl rfl, Or.inr ⟨_, rfl, ?_⟩⟩
    refine .cons ⟨_, rfl, callDistinct, .of_keys rfl ofCall, rfl, rfl, rfl, Or.inl ?_⟩ .nil
    exact ⟨_, rfl, by decide, .of_keys rfl (by decide), rfl, Or.inl rfl⟩
  · refine ⟨by decide, .of_keys rfl (by decide), ⟨none, rfl⟩, Or.inr ⟨rfl, rfl⟩,
      Or.inr ⟨_, rfl, ?_⟩⟩
    refine .cons ⟨_, rfl, by decide, .of_keys rfl (by decide), rfl, rfl, rfl, Or.inl ?_⟩ .nil
    exact ⟨_, rfl, by decide, .of_keys rfl (by decide), rfl, Or.inl rfl⟩

/-- A call of a function in two fragments. -/
theorem accumulateDeltas_delivers_two :
    ∃ snapshot, accumulateDeltas [] (twoFragmentsChunks functionType) = .ok snapshot ∧
      HoldsMessage (twoFragmentsMessage functionType) snapshot :=
  accumulateDeltas_delivers (twoFragments_delivers functionType) (by
      intro i call here differs
      cases i with
      | zero =>
        obtain rfl : _ = call := some.inj here
        exact absurd rfl differs
      | succ i => cases here)
    (twoFragments_writes functionType)

/-- A call that is no function has become one when its second fragment gives
no type. -/
theorem accumulateDeltas_retyped :
    Delivers (twoFragmentsMessage "custom".toList) (twoFragments "custom".toList) ∧
      List.Forall₂ WritesDelta (twoFragments "custom".toList) (twoFragmentsChunks "custom".toList) ∧
      ¬ ∃ snapshot, accumulateDeltas [] (twoFragmentsChunks "custom".toList) = .ok snapshot ∧
        HoldsMessage (twoFragmentsMessage "custom".toList) snapshot := by
  have delivers := twoFragments_delivers "custom".toList
  have writes := twoFragments_writes "custom".toList
  refine ⟨delivers, writes, ?_⟩
  rintro ⟨snapshot, accumulated, holds⟩
  obtain ⟨made, isMade, extended⟩ :=
    accumulateDeltas_extended writes delivers.inOrder delivers.single
  rw [isMade] at accumulated
  obtain rfl := Except.ok.inj accumulated
  have calls := extended.unique_calls holds
  exact absurd calls (by decide)

end Streams

end WriterAgent.Framework.DeltaFragments
