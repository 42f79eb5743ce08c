import WriterAgent.Calc.Python.SpillAreas
import WriterAgent.Calc.Python.SpillDesktop

/-!
# Keeping documents apart

The registry and the timers tell documents apart by their URL alone.
-/

namespace WriterAgent.Calc.Python

open PyText List Option

variable {δ κ ρ : Type}

/-- A step triggered for one document leaves the cells of the other open ones
and their records alone, and a property that changes holds only what is
recorded for its own document and for no other open one. -/
structure Isolated (before after : Desktop δ κ ρ) (trigger : Option δ) : Prop where
  cells : ∀ id doc, trigger ≠ some id → before.document id = some doc →
    ∃ doc', after.document id = some doc' ∧ doc'.cells = doc.cells
  recorded : ∀ id doc, trigger ≠ some id → before.document id = some doc →
    ∀ key : SpillKey, key.docUrl = doc.url → after.registry.get? key = before.registry.get? key
  stored : ∀ id doc doc', before.document id = some doc →
    after.document id = some doc' → doc'.spillProperty ≠ doc.spillProperty →
      ∃ property, doc'.spillProperty = some property ∧
        ∀ entry ∈ property.entries, ∃ key : SpillKey, savedKey key = entry.1 ∧
            after.registry.get? key = some entry.2 ∧
            key.docUrl = doc.url ∧
            ∀ other otherDoc, other ≠ id →
              after.document other = some otherDoc → key.docUrl ≠ otherDoc.url

def StepIsolated [DecidableEq δ] [DecidableEq κ] (model : CellModel κ ρ)
    (desk : Desktop δ κ ρ) (action : DesktopAction δ κ ρ) : Prop :=
  Isolated desk (desktopStep model desk action) (action.trigger desk)

/-- A document is opened with a URL that no open document has, and an
evaluation is told its document or is made in the current one. -/
def SeparateDocuments (desk : Desktop δ κ ρ) : DesktopAction δ κ ρ → Prop
  | .openDocument _ url _ _ _ => ∀ other doc, desk.document other = some doc → doc.url ≠ url
  | .evaluate caller docPassed _ _ _ _ => docPassed = true ∨ desk.current = some caller
  | _ => True

/-- What an operation leaves of a document.  Only a document of its own may
lose cells or be closed; a property may be saved. -/
structure DocKept (registry : SpillRegistry) (own : Prop) (doc doc' : CalcDocument κ) : Prop where
  url : doc'.url = doc.url
  wasOpen : doc'.isOpen = true → doc.isOpen = true
  stored : doc'.spillProperty = doc.spillProperty ∨
    doc'.spillProperty = some (savedEntries registry doc.url)
  others : ¬ own → doc'.cells = doc.cells ∧ doc'.isOpen = doc.isOpen

structure Footprint (trigger : Option δ) (before after : Desktop δ κ ρ) : Prop where
  docs : ∀ id, Option.Rel (DocKept after.registry (trigger = some id))
    (before.docs id) (after.docs id)
  recorded : ∀ key : SpillKey,
    (∀ id doc, trigger = some id → before.document id = some doc → key.docUrl ≠ doc.url) →
    after.registry.get? key = before.registry.get? key
  attached : ∀ listener ∈ after.attached, listener ∈ before.attached ∨
    ∃ doc, before.docs listener.owner = some doc ∧ doc.url = listener.docUrl
  passes : ∀ key pass, after.passTimers.get? key = some pass →
    before.passTimers.get? key = some pass ∨
      ∃ listener ∈ before.attached, listener.owner = pass.owner ∧ listener.docUrl = key.1
  spills : ∀ timer ∈ after.spillTimers, timer ∈ before.spillTimers ∨ timer.caller = timer.target

structure DesktopInvariant (desk : Desktop δ κ ρ) : Prop where
  distinct : ∀ id other doc otherDoc, desk.document id = some doc →
    desk.document other = some otherDoc → doc.url = otherDoc.url → id = other
  attached : ∀ listener ∈ desk.attached,
    ∃ doc, desk.docs listener.owner = some doc ∧ doc.url = listener.docUrl
  passes : ∀ key pass, desk.passTimers.get? key = some pass →
    ∃ doc, desk.docs pass.owner = some doc ∧ doc.url = key.1
  spills : ∀ timer ∈ desk.spillTimers, timer.caller = timer.target

variable {id : δ} {doc doc' : CalcDocument κ} {registry : SpillRegistry}
  {url : Text} {desk : Desktop δ κ ρ} {own : Prop}
  {before after : Option (CalcDocument κ)}

theorem Desktop.document_eq_some : desk.document id = some doc ↔
      desk.docs id = some doc ∧ doc.isOpen = true := by
  rw [Desktop.document, filter_eq_some_iff]

theorem DocKept.refl (registry : SpillRegistry) (own : Prop)
    (doc : CalcDocument κ) : DocKept registry own doc doc :=
  ⟨rfl, id, Or.inl rfl, fun _ => ⟨rfl, rfl⟩⟩

theorem docsKept_refl (registry : SpillRegistry) (own : Prop) (doc : Option (CalcDocument κ)) :
    Option.Rel (DocKept registry own) doc doc := by
  cases doc with
  | none => exact .none
  | some doc => exact .some (.refl registry own doc)

theorem docKept_of_rel (related : Option.Rel (DocKept registry own) before after)
    (found : before = some doc) :
    ∃ doc', after = some doc' ∧ DocKept registry own doc doc' := by
  cases related with
  | none => cases found
  | some kept =>
    obtain rfl := some.inj found
    exact ⟨_, rfl, kept⟩

theorem docKept_of_rel_after (related : Option.Rel (DocKept registry own) before after)
    (found : after = some doc') :
    ∃ doc, before = some doc ∧ DocKept registry own doc doc' := by
  cases related with
  | none => cases found
  | some kept =>
    obtain rfl := some.inj found
    exact ⟨_, rfl, kept⟩

section Footprint

variable {trigger : Option δ} {before after : Desktop δ κ ρ}

theorem Footprint.wasOpen (footprint : Footprint trigger before after)
    (found : after.document id = some doc') :
    ∃ doc, before.document id = some doc ∧ doc'.url = doc.url := by
  obtain ⟨inDocs, isOpen⟩ := Desktop.document_eq_some.mp found
  obtain ⟨doc, inBefore, kept⟩ :=
    docKept_of_rel_after (footprint.docs id) inDocs
  exact ⟨doc, Desktop.document_eq_some.mpr ⟨inBefore, kept.wasOpen isOpen⟩, kept.url⟩

theorem mem_savedEntries {entry : Text × List Coord}
    (member : entry ∈ (savedEntries registry url).entries) :
    ∃ key : SpillKey, savedKey key = entry.1 ∧
      registry.get? key = some entry.2 ∧ key.docUrl = url := by
  obtain ⟨⟨key, coords⟩, inRegistry, rfl⟩ :=
    mem_map.mp (PyDict.mem_of_mem_ofPairs member)
  obtain ⟨inEntries, sameUrl⟩ := mem_filter.mp inRegistry
  exact ⟨key, rfl, PyDict.get?_eq_some_iff.mpr inEntries, by simpa using sameUrl⟩

theorem Footprint.isolated (footprint : Footprint trigger before after)
    (invariant : DesktopInvariant before) : Isolated before after trigger := by
  constructor
  · intro id doc notTrigger found
    obtain ⟨inDocs, isOpen⟩ := Desktop.document_eq_some.mp found
    obtain ⟨doc', inAfter, kept⟩ := docKept_of_rel (footprint.docs id) inDocs
    obtain ⟨cells, stillOpen⟩ := kept.others notTrigger
    exact ⟨doc', Desktop.document_eq_some.mpr ⟨inAfter, stillOpen.trans isOpen⟩, cells⟩
  · intro id doc notTrigger found key sameUrl
    apply footprint.recorded
    intro other otherDoc isTrigger otherFound same
    have equal : id = other :=
      invariant.distinct id other doc otherDoc found otherFound (sameUrl.symm.trans same)
    exact notTrigger (equal ▸ isTrigger)
  · intro id doc doc' found foundAfter changed
    obtain ⟨inDocs, _⟩ := Desktop.document_eq_some.mp found
    obtain ⟨inAfter, _⟩ := Desktop.document_eq_some.mp foundAfter
    obtain ⟨_, same, kept⟩ := docKept_of_rel (footprint.docs id) inDocs
    obtain rfl := some.inj (inAfter.symm.trans same)
    have saved := kept.stored.resolve_left changed
    refine ⟨_, saved, ?_⟩
    intro entry member
    obtain ⟨key, keyText, recorded, sameUrl⟩ := mem_savedEntries member
    refine ⟨key, keyText, recorded, sameUrl, ?_⟩
    intro other otherDoc different otherFound equal
    obtain ⟨otherBefore, wasOpen, urlKept⟩ := footprint.wasOpen otherFound
    apply different
    apply invariant.distinct other id otherBefore doc wasOpen found
    rw [← urlKept, ← equal, sameUrl]

theorem Footprint.urlKept (footprint : Footprint trigger before after)
    (known : ∃ doc, before.docs id = some doc ∧ doc.url = url) :
    ∃ doc, after.docs id = some doc ∧ doc.url = url := by
  obtain ⟨doc, inDocs, rfl⟩ := known
  obtain ⟨doc', inAfter, kept⟩ := docKept_of_rel (footprint.docs id) inDocs
  exact ⟨doc', inAfter, kept.url⟩

theorem Footprint.invariant (footprint : Footprint trigger before after)
    (invariant : DesktopInvariant before) : DesktopInvariant after := by
  constructor
  · intro id other doc otherDoc found otherFound same
    obtain ⟨docBefore, wasOpen, url⟩ := footprint.wasOpen found
    obtain ⟨otherBefore, otherOpen, otherUrl⟩ := footprint.wasOpen otherFound
    apply invariant.distinct id other docBefore otherBefore wasOpen otherOpen
    rw [← url, ← otherUrl, same]
  · intro listener member
    apply footprint.urlKept
    rcases footprint.attached listener member with earlier | known
    · exact invariant.attached listener earlier
    · exact known
  · intro key pass found
    apply footprint.urlKept
    rcases footprint.passes key pass found with earlier | scheduled
    · exact invariant.passes key pass earlier
    · obtain ⟨listener, member, owner, url⟩ := scheduled
      rw [← owner, ← url]
      exact invariant.attached listener member
  · intro timer member
    rcases footprint.spills timer member with earlier | same
    · exact invariant.spills timer earlier
    · exact same

end Footprint

section Operations

variable {trigger : Option δ} {before after : Desktop δ κ ρ}

theorem Footprint.refl (trigger : Option δ) (desk : Desktop δ κ ρ) :
    Footprint trigger desk desk where
  docs := fun _ => docsKept_refl _ _ _
  recorded := fun _ _ => rfl
  attached := fun _ => Or.inl
  passes := fun _ _ => Or.inl
  spills := fun _ => Or.inl

theorem Footprint.unseen (footprint : Footprint trigger before after)
    (unloadListeners : List δ) (current : Option δ) :
    Footprint trigger before { after with
      unloadListeners := unloadListeners
      current := current } :=
  { footprint with }

variable [DecidableEq δ]

theorem docsKept_updateDocument {change : CalcDocument κ → CalcDocument κ}
    (kept : ∀ doc, (change doc).url = doc.url ∧ ((change doc).isOpen = true → doc.isOpen = true) ∧
      (change doc).spillProperty = doc.spillProperty) (registry : SpillRegistry)
    (other : δ) :
    Option.Rel (DocKept registry (some id = some other)) (desk.docs other)
      ((desk.updateDocument id change).docs other) := by
  simp only [Desktop.updateDocument]
  split
  · rename_i same
    subst same
    cases desk.docs other with
    | none => exact .none
    | some doc =>
      obtain ⟨url, isOpen, property⟩ := kept doc
      exact .some ⟨url, isOpen, Or.inl property, fun notOwn => absurd rfl notOwn⟩
  · exact docsKept_refl _ _ _

theorem Footprint.save (footprint : Footprint trigger before after) (id : δ) :
    Footprint trigger before (after.saveSpillRegistryForDoc id) := by
  constructor
  · intro other
    have related := footprint.docs other
    simp only [Desktop.saveSpillRegistryForDoc, Desktop.updateDocument]
    split
    · rename_i same
      subst same
      generalize before.docs other = left at related
      generalize after.docs other = right at related
      cases related with
      | none => exact .none
      | some kept =>
        apply Option.Rel.some
        simp only
        split
        · constructor
          · exact kept.url
          · exact kept.wasOpen
          · rw [kept.url]
            exact Or.inr rfl
          · exact kept.others
        · exact kept
    · exact related
  · exact footprint.recorded
  · exact footprint.attached
  · exact footprint.passes
  · exact footprint.spills

theorem footprint_write (found : before.document id = some doc)
    (recorded : ∀ key : SpillKey, key.docUrl ≠ doc.url →
      registry.get? key = before.registry.get? key)
    {timers : List (ScheduledSpill δ ρ)}
    (fewer : ∀ timer ∈ timers, timer ∈ before.spillTimers)
    {passes : PyDict (Text × Text) (SheetModifyPass δ)}
    (fewerPasses : ∀ key pass, passes.get? key = some pass →
      before.passTimers.get? key = some pass) (cells : Cells κ) :
    Footprint (some id) before (Desktop.setCells { before with
        registry := registry
        spillTimers := timers
        passTimers := passes } id cells) := by
  constructor
  · intro other
    apply docsKept_updateDocument
    exact fun _ => ⟨rfl, fun isOpen => isOpen, rfl⟩
  · intro key others
    exact recorded key (others id doc rfl found)
  · exact fun _ => Or.inl
  · exact fun key pass remaining => Or.inl (fewerPasses key pass remaining)
  · exact fun timer member => Or.inl (fewer timer member)

theorem footprint_edit (id : δ) (sheetName : Text) (coord : Coord) (content : κ) :
    Footprint (some id) before (before.edit id sheetName coord content) := by
  refine { Footprint.refl (some id) before with docs := ?_ }
  intro other
  apply docsKept_updateDocument
  exact fun _ => ⟨rfl, fun isOpen => isOpen, rfl⟩

theorem get?_loadEntries {entries : List (Text × List Coord)} {key : SpillKey}
    (other : key.docUrl ≠ url) :
    (loadEntries url entries registry).get? key = registry.get? key := by
  induction entries generalizing registry with
  | nil => rfl
  | cons entry rest ih =>
    obtain ⟨text, coords⟩ := entry
    have foundUrl : ∀ {found}, loadedKey url text = .found found → found.docUrl = url := by
      intro found loaded
      unfold loadedKey at loaded
      split at loaded
      · split at loaded
        · split at loaded
          · obtain rfl := LoadedKey.found.inj loaded
            rfl
          · cases loaded
        · cases loaded
      · cases loaded
    rw [loadEntries]
    split
    · exact ih
    · rfl
    · rename_i found loaded
      have different : key ≠ found := by
        rintro rfl
        exact other (foundUrl loaded)
      rw [ih, PyDict.get?_set, if_neg different]

omit [DecidableEq δ] in
theorem loadSpillRegistryForDoc_cases (found : desk.document id = some doc) :
    ∃ registry : SpillRegistry,
      desk.loadSpillRegistryForDoc id = { desk with registry := registry } ∧
        ∀ key : SpillKey, key.docUrl ≠ doc.url → registry.get? key = desk.registry.get? key := by
  unfold Desktop.loadSpillRegistryForDoc
  rw [found]
  simp only
  split
  · exact ⟨desk.registry, rfl, fun _ _ => rfl⟩
  · exact ⟨_, rfl, fun key other => get?_loadEntries other⟩

omit [DecidableEq δ] in
theorem ensureLoaded_cases (found : desk.document id = some doc) :
    ∃ (registry : SpillRegistry) (loadedDocuments : List Text),
      desk.ensureLoaded id doc = { desk with
        registry := registry
        loadedDocuments := loadedDocuments } ∧
        ∀ key : SpillKey, key.docUrl ≠ doc.url → registry.get? key = desk.registry.get? key := by
  unfold Desktop.ensureLoaded
  split
  · exact ⟨desk.registry, desk.loadedDocuments, rfl, fun _ _ => rfl⟩
  · obtain ⟨registry, loaded, agrees⟩ := loadSpillRegistryForDoc_cases found
    rw [loaded]
    exact ⟨registry, _, rfl, agrees⟩

omit [DecidableEq δ] in
theorem ensureSheetModifyListener_cases (desk : Desktop δ κ ρ) (id : δ)
    (doc : CalcDocument κ) (sheetName : Text) :
    ∃ (attached : List (SheetModifyDispatcher δ)) (keys : List (Text × Text)),
      desk.ensureSheetModifyListener id doc sheetName = { desk with
        attached := attached
        sheetModifyListeners := keys } ∧
        ∀ listener ∈ attached, listener ∈ desk.attached ∨
          (listener.owner = id ∧ listener.docUrl = doc.url) := by
  unfold Desktop.ensureSheetModifyListener
  split
  · exact ⟨desk.attached, _, rfl, fun _ => Or.inl⟩
  · refine ⟨_, _, rfl, ?_⟩
    intro listener member
    rcases mem_append.mp member with earlier | last
    · exact Or.inl earlier
    · obtain rfl := mem_singleton.mp last
      exact Or.inr ⟨rfl, rfl⟩

omit [DecidableEq δ] in
theorem footprint_prepare (found : before.document id = some doc) (docs : after.docs = before.docs)
    (recorded : ∀ key : SpillKey, key.docUrl ≠ doc.url →
      after.registry.get? key = before.registry.get? key)
    (attached : ∀ listener ∈ after.attached, listener ∈ before.attached ∨
      (listener.owner = id ∧ listener.docUrl = doc.url))
    (passes : after.passTimers = before.passTimers)
    (spills : ∀ timer ∈ after.spillTimers, timer ∈ before.spillTimers ∨
      timer.caller = timer.target) : Footprint (some id) before after := by
  constructor
  · intro other
    rw [docs]
    exact docsKept_refl _ _ _
  · intro key others
    exact recorded key (others id doc rfl found)
  · intro listener member
    rcases attached listener member with earlier | ⟨owner, url⟩
    · exact Or.inl earlier
    · right
      rw [owner, url]
      exact ⟨doc, (Desktop.document_eq_some.mp found).1, rfl⟩
  · intro key pass scheduled
    rw [passes] at scheduled
    exact Or.inl scheduled
  · exact spills

omit [DecidableEq δ] in
theorem footprint_load (id : δ) :
    Footprint (some id) before (before.loadSpillRegistryForDoc id) := by
  cases found : before.document id with
  | none =>
    unfold Desktop.loadSpillRegistryForDoc
    rw [found]
    exact .refl _ _
  | some doc =>
    obtain ⟨registry, loaded, agrees⟩ := loadSpillRegistryForDoc_cases found
    rw [loaded]
    exact footprint_prepare found rfl agrees (fun _ => Or.inl) rfl (fun _ => Or.inl)

theorem footprint_evaluate [DecidableEq κ] (model : CellModel κ ρ) {caller : δ} {docPassed : Bool}
    (sheetName : Text) (origin : Coord) (code : Text) (grid : List (List ρ))
    (separate : docPassed = true ∨ before.current = some caller) :
    Footprint (some caller) before
      (before.evaluate model caller docPassed sheetName origin code grid) := by
  have target : (if docPassed then some caller else before.current) = some caller := by
    rcases separate with passed | current
    · rw [if_pos passed]
    · rw [current, ite_self]
  unfold Desktop.evaluate
  rw [target]
  simp only
  split
  · exact .refl _ _
  · rename_i doc found
    -- The unload listener touches no field of a footprint.
    have watched : ∃ listeners, before.ensureUnloadListener caller =
        { before with unloadListeners := listeners } := by
      unfold Desktop.ensureUnloadListener
      split <;> exact ⟨_, rfl⟩
    obtain ⟨listeners, watched⟩ := watched
    rw [watched]
    have foundWatched : Desktop.document
        { before with unloadListeners := listeners } caller = some doc :=
      found
    obtain ⟨registry, loadedDocuments, loaded, agrees⟩ :=
      ensureLoaded_cases foundWatched
    obtain ⟨attached, keys, ensured, fewer⟩ :=
      ensureSheetModifyListener_cases ({ before with
          unloadListeners := listeners
          registry := registry
          loadedDocuments := loadedDocuments } : Desktop δ κ ρ)
        caller doc sheetName
    rw [loaded, ensured]
    split_ifs
    · apply footprint_prepare found
      · rfl
      · exact agrees
      · exact fewer
      · rfl
      · intro timer member
        rcases mem_append.mp member with earlier | last
        · exact Or.inl earlier
        · obtain rfl := mem_singleton.mp last
          exact Or.inr rfl
    · apply footprint_prepare found
      · rfl
      · exact agrees
      · exact fewer
      · rfl
      · exact fun _ => Or.inl
    · exact (Footprint.refl (some caller) before).unseen listeners _

theorem footprint_perform (model : CellModel κ ρ) (index : Nat) {timer}
    (scheduled : before.spillTimers[index]? = some timer) (same : timer.caller = timer.target) :
    Footprint (some timer.caller) before (before.perform model index) := by
  have fewer : ∀ other ∈ before.spillTimers.eraseIdx index,
      other ∈ before.spillTimers := fun _ => mem_of_mem_eraseIdx
  unfold Desktop.perform
  rw [scheduled, same]
  simp only
  split
  · exact { Footprint.refl (some timer.target) before with
      spills := fun other member => Or.inl (fewer other member) }
  · rename_i doc found
    split
    · rename_i known
      have recorded : ∀ key : SpillKey, key.docUrl ≠ doc.url →
          (performDeferredSpill model doc.url doc.cells before.registry
            timer.spill).registry.get? key = before.registry.get? key := by
        intro key other
        rcases performDeferredSpill_cases model doc.url doc.cells
          before.registry timer.spill with skipped | ⟨sameUrl, spilled⟩
        · rw [skipped]
        · rw [spilled.registryEq, PyDict.get?_set, if_neg]
          rintro rfl
          exact other sameUrl.symm
      have opened : before.document timer.target = some doc := found
      have written := footprint_write opened recorded fewer
        (fun _ _ found => found) (performDeferredSpill model doc.url
          doc.cells before.registry timer.spill).cells
      split
      · exact written.save timer.target
      · exact written
    · exact { Footprint.refl (some timer.target) before with
        spills := fun other member => Or.inl (fewer other member) }

theorem footprint_runSheetModifyPass (model : CellModel κ ρ) {key : Text × Text} {pass}
    (scheduled : before.passTimers.get? key = some pass)
    (url : ∀ doc, before.docs pass.owner = some doc → doc.url = key.1) :
    Footprint (some pass.owner) before (before.runSheetModifyPass model key) := by
  have fewer : ∀ other found, (before.passTimers.pop key).get? other =
      some found → before.passTimers.get? other = some found := by
    intro other found inRest
    rw [PyDict.get?_pop] at inRest
    split at inRest
    · cases inRest
    · exact inRest
  unfold Desktop.runSheetModifyPass
  rw [scheduled]
  simp only
  split
  · exact { Footprint.refl (some pass.owner) before with
      passes := fun other found inRest => Or.inl (fewer other found inRest) }
  · rename_i doc found
    have opened : before.document pass.owner = some doc := found
    have sameUrl := url doc (Desktop.document_eq_some.mp opened).1
    have recorded : ∀ other : SpillKey, other.docUrl ≠ doc.url →
        (cleanUpOrphans model key.1 key.2 doc.cells before.registry).registry.get? other =
          before.registry.get? other := by
      intro other different
      have removed := @mem_toRemove_cleanUp κ ρ model key.1 key.2
        before.registry.entries ⟨doc.cells key.2, [], []⟩
        fun key member => absurd member not_mem_nil
      unfold cleanUpOrphans
      rw [PyDict.get?_filterKeys, if_pos]
      rw [decide_eq_true_eq]
      intro member
      exact different ((removed other member).1.trans sameUrl.symm)
    have written := footprint_write opened recorded (fun _ member => member)
      fewer (cleanUpOrphans model key.1 key.2 doc.cells before.registry).cells
    split
    · split
      · exact written.save _
      · exact written
    · exact written

omit [DecidableEq δ] in
theorem footprint_modified (index : Nat) {listener}
    (found : before.attached[index]? = some listener) :
    Footprint (some listener.owner) before (before.modified index) := by
  unfold Desktop.modified
  rw [found]
  refine { Footprint.refl (some listener.owner) before with passes := ?_ }
  intro key pass scheduled
  rw [PyDict.get?_set] at scheduled
  split at scheduled
  · rename_i same
    obtain rfl := some.inj scheduled
    right
    exact ⟨listener, mem_of_getElem? found, rfl, by rw [same]⟩
  · rw [PyDict.get?_pop] at scheduled
    split at scheduled
    · cases scheduled
    · exact Or.inl scheduled

theorem clearInMemorySpillState_cases (desk : Desktop δ κ ρ) (id : δ)
    (url : Text) (clears : Prop) [Decidable clears] :
    ∃ (registry : SpillRegistry) (timers : List (ScheduledSpill δ ρ))
      (passes : PyDict (Text × Text) (SheetModifyPass δ))
      (loadedDocuments : List Text) (keys : List (Text × Text)),
      (if clears then desk.clearInMemorySpillState id url else desk) = { desk with
        registry := registry
        spillTimers := timers
        passTimers := passes
        loadedDocuments := loadedDocuments
        sheetModifyListeners := keys } ∧
      (∀ key : SpillKey, key.docUrl ≠ url → registry.get? key = desk.registry.get? key) ∧
      (∀ timer ∈ timers, timer ∈ desk.spillTimers) ∧
      ∀ key pass, passes.get? key = some pass → desk.passTimers.get? key = some pass := by
  have fewer : ∀ timer ∈ desk.spillTimers.filter (·.target ≠ id),
      timer ∈ desk.spillTimers := fun _ member => (mem_filter.mp member).1
  have fewerPasses : ∀ key pass, (desk.passTimers.filterKeys fun key =>
      (desk.passTimers.get? key).bind (·.timerOwner) ≠ some id).get? key =
        some pass → desk.passTimers.get? key = some pass := by
    intro key pass remaining
    rw [PyDict.get?_filterKeys] at remaining
    split at remaining
    · exact remaining
    · cases remaining
  split
  · unfold Desktop.clearInMemorySpillState
    split
    · exact ⟨_, _, _, _, _, rfl, fun _ _ => rfl, fewer, fewerPasses⟩
    · refine ⟨_, _, _, _, _, rfl, ?_, fewer, fewerPasses⟩
      intro key other
      rw [PyDict.get?_filterKeys, if_pos (by simpa using other)]
  · exact ⟨_, _, _, _, _, rfl, fun _ _ => rfl, fun _ member => member,
      fun _ _ remaining => remaining⟩

omit [DecidableEq δ] in
theorem foldl_disposing_cases (listeners : List (SheetModifyDispatcher δ)) (desk : Desktop δ κ ρ) :
    ∃ (keys : List (Text × Text)) (passes : PyDict (Text × Text) (SheetModifyPass δ)),
      listeners.foldl Desktop.disposing desk = { desk with
        sheetModifyListeners := keys
        passTimers := passes } ∧
      ∀ key pass, passes.get? key = some pass → desk.passTimers.get? key = some pass := by
  induction listeners generalizing desk with
  | nil => exact ⟨_, _, rfl, fun _ _ remaining => remaining⟩
  | cons listener rest ih =>
    obtain ⟨keys, passes, disposed, fewer⟩ := ih (desk.disposing listener)
    refine ⟨keys, passes, ?_, ?_⟩
    · rw [foldl_cons, disposed]
      rfl
    · intro key pass remaining
      have later := fewer key pass remaining
      unfold Desktop.disposing at later
      simp only at later
      rw [PyDict.get?_pop] at later
      split at later
      · cases later
      · exact later

theorem footprint_close (id : δ) : Footprint (some id) before (before.close id) := by
  unfold Desktop.close
  split
  · exact .refl _ _
  · rename_i doc found
    -- The teardown, when it runs, drops entries and timers of the document.
    obtain ⟨registry, timers, passes, loadedDocuments, keys, cleared,
        recorded, fewer, fewerPasses⟩ :=
      clearInMemorySpillState_cases before id doc.url (id ∈ before.unloadListeners)
    rw [cleared]
    simp only
    obtain ⟨keys', passes', disposed, fewerPasses'⟩ := foldl_disposing_cases
      (before.attached.filter (·.owner = id)) ({ before with
        registry := registry
        spillTimers := timers
        passTimers := passes
        loadedDocuments := loadedDocuments
        sheetModifyListeners := keys } : Desktop δ κ ρ)
    rw [disposed]
    constructor
    · intro other
      apply docsKept_updateDocument
      exact fun doc => ⟨rfl, fun closed => absurd closed nofun, rfl⟩
    · intro key others
      exact recorded key (others id doc rfl found)
    · intro listener member
      exact Or.inl (mem_filter.mp member).1
    · intro key pass remaining
      exact Or.inl (fewerPasses key pass (fewerPasses' key pass remaining))
    · exact fun timer member => Or.inl (fewer timer member)

theorem docs_openDocument {sheets : List Text} {cells : Cells κ}
    {spillProperty : Option (PyDict Text (List Coord))} {other : δ}
    (found : before.docs other = some doc) :
    (before.openDocument id url sheets cells spillProperty).docs other = some doc := by
  unfold Desktop.openDocument
  split
  · exact found
  · rename_i absent
    have different : other ≠ id := by
      rintro rfl
      cases found.symm.trans absent
    simp only [if_neg different]
    exact found

theorem isolated_openDocument (id : δ) (url : Text) (sheets : List Text)
    (cells : Cells κ) (spillProperty : Option (PyDict Text (List Coord))) :
    Isolated before (before.openDocument id url sheets cells spillProperty) (some id) := by
  have same : ∀ other doc, before.document other = some doc →
      (before.openDocument id url sheets cells spillProperty).document other = some doc := by
    intro other doc found
    obtain ⟨inDocs, isOpen⟩ := Desktop.document_eq_some.mp found
    exact Desktop.document_eq_some.mpr ⟨docs_openDocument inDocs, isOpen⟩
  constructor
  · exact fun other doc _ found => ⟨doc, same other doc found, rfl⟩
  · intro other doc _ _ key _
    unfold Desktop.openDocument
    split <;> rfl
  · intro other doc doc' found foundAfter changed
    obtain rfl :=
      some.inj ((same other doc found).symm.trans foundAfter)
    exact absurd rfl changed

theorem DesktopInvariant.openDocument (invariant : DesktopInvariant before) (id : δ)
    (sheets : List Text) (cells : Cells κ) (spillProperty : Option (PyDict Text (List Coord)))
    (separate : ∀ other doc, before.document other = some doc →       doc.url ≠ url) :
    DesktopInvariant (before.openDocument id url sheets cells spillProperty) := by
  have kept : ∀ {other docUrl}, (∃ doc, before.docs other = some doc ∧ doc.url = docUrl) →
        ∃ doc, (before.openDocument id url sheets cells spillProperty).docs
          other = some doc ∧ doc.url = docUrl := by
    intro other docUrl known
    obtain ⟨doc, found, sameUrl⟩ := known
    exact ⟨doc, docs_openDocument found, sameUrl⟩
  -- A document of the new desktop is an old one or the one just opened.
  have origin : ∀ {other doc},
      (before.openDocument id url sheets cells spillProperty).document other =
        some doc → before.document other = some doc ∨ (other = id ∧ doc.url = url) := by
    intro other doc found
    rw [Desktop.document_eq_some] at found
    obtain ⟨inDocs, isOpen⟩ := found
    unfold Desktop.openDocument at inDocs
    split at inDocs
    · exact Or.inl (Desktop.document_eq_some.mpr ⟨inDocs, isOpen⟩)
    · simp only at inDocs
      split at inDocs
      · rename_i same
        obtain rfl := some.inj inDocs
        exact Or.inr ⟨same, rfl⟩
      · exact Or.inl (Desktop.document_eq_some.mpr ⟨inDocs, isOpen⟩)
  have lists : (before.openDocument id url sheets cells spillProperty).attached = before.attached ∧
      (before.openDocument id url sheets cells spillProperty).passTimers = before.passTimers ∧
      (before.openDocument id url sheets cells spillProperty).spillTimers =
        before.spillTimers := by
    unfold Desktop.openDocument
    split <;> exact ⟨rfl, rfl, rfl⟩
  obtain ⟨attached, passes, spills⟩ := lists
  constructor
  · intro left right doc otherDoc found otherFound sameUrl
    rcases origin found with old | ⟨rfl, isUrl⟩
    · rcases origin otherFound with otherOld | ⟨rfl, otherUrl⟩
      · exact invariant.distinct left right doc otherDoc old otherOld sameUrl
      · exact absurd (sameUrl.trans otherUrl) (separate left doc old)
    · rcases origin otherFound with otherOld | ⟨rfl, _⟩
      · exact absurd (sameUrl.symm.trans isUrl) (separate right otherDoc otherOld)
      · rfl
  · intro listener member
    rw [attached] at member
    exact kept (invariant.attached listener member)
  · intro key pass found
    rw [passes] at found
    exact kept (invariant.passes key pass found)
  · intro timer member
    rw [spills] at member
    exact invariant.spills timer member

end Operations

section Runs

theorem desktopInvariant_start :
    DesktopInvariant (Desktop.start : Desktop δ κ ρ) := by
  constructor
  · exact fun _ _ _ _ found => absurd found nofun
  · exact fun _ member => absurd member not_mem_nil
  · exact fun _ _ found => absurd found nofun
  · exact fun _ member => absurd member not_mem_nil

variable [DecidableEq δ] [DecidableEq κ] {model : CellModel κ ρ} {desk : Desktop δ κ ρ}

theorem DesktopInvariant.footprint (invariant : DesktopInvariant desk)
    {action : DesktopAction δ κ ρ} (separate : SeparateDocuments desk action)
    (opens : ∀ id url sheets cells spillProperty,
      action ≠ .openDocument id url sheets cells spillProperty) :
    Footprint (action.trigger desk) desk (desktopStep model desk action) := by
  cases action with
  | openDocument id url sheets cells spillProperty =>
    exact absurd rfl (opens id url sheets cells spillProperty)
  | activate id => exact (Footprint.refl none desk).unseen _ id
  | edit id sheetName coord content => exact footprint_edit id sheetName coord content
  | evaluate caller docPassed sheetName origin code grid =>
    exact footprint_evaluate model sheetName origin code grid separate
  | perform index =>
    cases scheduled : desk.spillTimers[index]? with
    | none =>
      have idle : desktopStep model desk (.perform index) = desk := by
        simp only [desktopStep, Desktop.perform, scheduled]
      rw [idle]
      exact .refl _ _
    | some timer =>
      have member := mem_of_getElem? scheduled
      simp only [DesktopAction.trigger, scheduled, map_some]
      exact footprint_perform model index scheduled (invariant.spills timer member)
  | modified index =>
    cases found : desk.attached[index]? with
    | none =>
      have idle : desktopStep model desk (.modified index) = desk := by
        simp only [desktopStep, Desktop.modified, found]
      rw [idle]
      exact .refl _ _
    | some listener =>
      simp only [DesktopAction.trigger, found, map_some]
      exact footprint_modified index found
  | runSheetModifyPass key =>
    cases scheduled : desk.passTimers.get? key with
    | none =>
      have idle : desktopStep model desk (.runSheetModifyPass key) =
          desk := by
        simp only [desktopStep, Desktop.runSheetModifyPass, scheduled]
      rw [idle]
      exact .refl _ _
    | some pass =>
      simp only [DesktopAction.trigger, scheduled, map_some]
      apply footprint_runSheetModifyPass model scheduled
      intro doc inDocs
      obtain ⟨known, found, url⟩ := invariant.passes key pass scheduled
      obtain rfl := some.inj (inDocs.symm.trans found)
      exact url
  | save id => exact (Footprint.refl (some id) desk).save id
  | load id => exact footprint_load id
  | close id => exact footprint_close id

theorem DesktopInvariant.step (invariant : DesktopInvariant desk)
    {action : DesktopAction δ κ ρ} (separate : SeparateDocuments desk action) :
    DesktopInvariant (desktopStep model desk action) ∧ StepIsolated model desk action := by
  by_cases opens : ∃ id url sheets cells spillProperty,
      action = .openDocument id url sheets cells spillProperty
  · obtain ⟨id, url, sheets, cells, spillProperty, rfl⟩ := opens
    exact ⟨invariant.openDocument id sheets cells spillProperty separate,
      isolated_openDocument id url sheets cells spillProperty⟩
  · have footprint := @DesktopInvariant.footprint δ κ ρ _ _ model desk
      invariant action separate fun id url sheets cells spillProperty same =>
        opens ⟨id, url, sheets, cells, spillProperty, same⟩
    exact ⟨footprint.invariant invariant, footprint.isolated invariant⟩

/-- **Documents stay apart** in every run that opens documents with a URL of
their own and evaluates formulas in the document they belong to. -/
theorem stepIsolated_of_separateDocuments (model : CellModel κ ρ) (run : List (DesktopAction δ κ ρ))
    (separate : Along (desktopStep model) SeparateDocuments Desktop.start run) :
    Along (desktopStep model) (StepIsolated model) Desktop.start run := by
  refine Along.of_invariant DesktopInvariant ?_ ?_ desktopInvariant_start separate
  · exact fun desk action invariant isSeparate => (invariant.step isSeparate).1
  · exact fun desk action invariant isSeparate => (invariant.step isSeparate).2

end Runs

def openSheet1 (id : Nat) (url : String) : DesktopAction Nat Text Text :=
  .openDocument id url.toList ["Sheet1".toList] columnSheet none

def spillA1 (id : Nat) (grid : List (List Text)) : List (DesktopAction Nat Text Text) :=
  [.activate (some id), .evaluate id false "Sheet1".toList (0, 0) "x".toList grid, .perform 0]

theorem stepIsolated_of_separateDocuments_oneUnsaved :
    Along (desktopStep textCells) SeparateDocuments (Desktop.start : Desktop Nat Text Text)
        (openSheet1 0 "" :: openSheet1 1 "file:///b.ods" ::
          spillA1 0 [["1".toList], ["2".toList]]) ∧
      Along (desktopStep textCells) (StepIsolated textCells) (Desktop.start : Desktop Nat Text Text)
        (openSheet1 0 "" :: openSheet1 1 "file:///b.ods" ::
          spillA1 0 [["1".toList], ["2".toList]]) := by
  have separate : Along (desktopStep textCells) SeparateDocuments
      (Desktop.start : Desktop Nat Text Text)
      (openSheet1 0 "" :: openSheet1 1 "file:///b.ods" ::
        spillA1 0 [["1".toList], ["2".toList]]) := by
    refine ⟨?_, ?_, trivial, Or.inr rfl, trivial, trivial⟩
    · exact fun other doc found => absurd found nofun
    · intro other doc found
      rw [Desktop.document_eq_some] at found
      obtain ⟨inDocs, _⟩ := found
      simp only [desktopStep, openSheet1, Desktop.openDocument, Desktop.start] at inDocs
      split at inDocs
      · obtain rfl := some.inj inDocs
        exact nofun
      · cases inDocs
  exact ⟨separate, stepIsolated_of_separateDocuments textCells _ separate⟩

/-- Two documents that were never saved share the empty URL: the second one's
spill replaces the coordinates recorded for the first one's A1. -/
theorem not_stepIsolated_twoUnsaved : ¬ Along (desktopStep textCells) (StepIsolated textCells)
      (Desktop.start : Desktop Nat Text Text)
      (openSheet1 0 "" :: openSheet1 1 "" :: (spillA1 0 [["1".toList], ["2".toList]] ++
          spillA1 1 [["1".toList], ["2".toList], ["3".toList]])) := by
  rintro ⟨_, _, _, _, _, _, _, isolated, _⟩
  have recorded := isolated.recorded 0 _ (by decide) rfl ⟨[], "Sheet1".toList, (0, 0)⟩ rfl
  exact absurd recorded (by decide +kernel)

end WriterAgent.Calc.Python
