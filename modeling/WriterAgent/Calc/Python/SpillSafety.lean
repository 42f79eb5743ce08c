import WriterAgent.Calc.Python.SpillAreas
import WriterAgent.Foundations.Runs

/-!
# Spilling and user data

One saved document, over all orders of evaluations, deferred writes, user
edits and clean-ups.  A cell is claimed by the origin it is registered to or
scheduled for.
-/

namespace WriterAgent.Calc.Python

open PyText List

variable {coord : Coord} {sheetName name : Text} {key : SpillKey}

section Book

variable {κ ρ : Type}

/-- A document with its registry and the scheduled writes.  `lastWritten` is
what a spill of an origin last wrote into a cell; no operation reads it. -/
structure SpillBook (κ ρ : Type) where
  cells : Cells κ
  registry : SpillRegistry
  pending : List (PendingSpill ρ)
  lastWritten : SpillKey → Coord → Option κ

inductive SpillAction (κ ρ : Type) where
  | evaluate (sheetName : Text) (origin : Coord) (code : Text) (grid : List (List ρ))
  | perform (index : Nat)
  | edit (sheetName : Text) (coord : Coord) (content : κ)
  | cleanUp (sheetName : Text)

variable (model : CellModel κ ρ) (url : Text)

/-- An evaluation of the located origin: a free area is scheduled, anything
else shows `#SPILL!`. -/
def SpillBook.evaluate [DecidableEq κ] (book : SpillBook κ ρ) (sheetName : Text) (origin : Coord)
    (code : Text) (grid : List (List ρ)) : SpillBook κ ρ :=
  let key : SpillKey := ⟨url, sheetName, origin⟩
  let sheet := book.cells sheetName
  if isMatchingPyFormula (model.getFormula (sheet origin)) code &&
      spillIsFree model sheet (spillsOf book.registry key) (spillTargets origin grid) then
    { book with pending := book.pending ++ [⟨key, grid, code⟩] }
  else book

def SpillBook.afterWrite (book : SpillBook κ ρ) (index : Nat)
    (spill : PendingSpill ρ) (outcome : SpillOutcome κ) : SpillBook κ ρ where
  cells := outcome.cells
  registry := outcome.registry
  pending := book.pending.eraseIdx index
  lastWritten := fun key coord =>
    if key = spill.key ∧ coord ∈ outcome.written then
      some (outcome.cells key.sheetName coord)
    else book.lastWritten key coord

def SpillBook.perform (book : SpillBook κ ρ) (index : Nat) : SpillBook κ ρ :=
  match book.pending[index]? with
  | none => book
  | some spill =>
    book.afterWrite index spill (performDeferredSpill model url book.cells book.registry spill)

def SpillBook.edit (book : SpillBook κ ρ) (sheetName : Text) (coord : Coord)
    (content : κ) : SpillBook κ ρ :=
  { book with
    cells := fun name other =>
      if name = sheetName ∧ other = coord then content
      else book.cells name other }

def SpillBook.cleanUp (book : SpillBook κ ρ) (sheetName : Text) : SpillBook κ ρ :=
  let outcome := cleanUpOrphans model url sheetName book.cells book.registry
  { book with cells := outcome.cells, registry := outcome.registry }

def spillStep [DecidableEq κ] (book : SpillBook κ ρ) : SpillAction κ ρ → SpillBook κ ρ
  | .evaluate sheetName origin code grid => book.evaluate model url sheetName origin code grid
  | .perform index => book.perform model url index
  | .edit sheetName coord content => book.edit sheetName coord content
  | .cleanUp sheetName => book.cleanUp model url sheetName

def spillTouches (book : SpillBook κ ρ) : SpillAction κ ρ → List (Touch κ)
  | .perform index =>
    match book.pending[index]? with
    | none => []
    | some spill => (performDeferredSpill model url book.cells book.registry spill).touched
  | .cleanUp sheetName => (cleanUpOrphans model url sheetName book.cells book.registry).touched
  | _ => []

def Registered (registry : SpillRegistry) (key : SpillKey) (name : Text) (coord : Coord) : Prop :=
  key.sheetName = name ∧ coord ∈ spillsOf registry key

def Scheduled (spill : PendingSpill ρ) (name : Text) (coord : Coord) : Prop :=
  spill.key.sheetName = name ∧ coord ∈ spillTargets spill.key.origin spill.grid

def Claims (book : SpillBook κ ρ) (key : SpillKey) (name : Text) (coord : Coord) : Prop :=
  Registered book.registry key name coord ∨
    ∃ spill ∈ book.pending, spill.key = key ∧ Scheduled spill name coord

/-- The registered areas of distinct origins share no cell. -/
def AreasDisjoint (registry : SpillRegistry) : Prop :=
  ∀ key other name coord, Registered registry key name coord →
    Registered registry other name coord → key = other

/-- A step overwrites only empty cells and values of the same origin, and
leaves disjoint areas. -/
def SpillSafe [DecidableEq κ] (book : SpillBook κ ρ) (action : SpillAction κ ρ) : Prop :=
  (∀ touch ∈ spillTouches model url book action, touch.before = model.empty ∨
      book.lastWritten touch.key touch.coord = some touch.before) ∧
    AreasDisjoint (spillStep model url book action).registry

/-- What keeps user data safe: no evaluation finds a cell empty that another
origin claims, and an edit empties a cell or leaves claimed cells alone. -/
def SpillAllowed (book : SpillBook κ ρ) : SpillAction κ ρ → Prop
  | .evaluate sheetName origin _ grid =>
    ∀ coord ∈ spillTargets origin grid, ∀ other,
      other ≠ ⟨url, sheetName, origin⟩ → Claims book other sheetName coord →
        book.cells sheetName coord ≠ model.empty
  | .edit sheetName coord content =>
    content = model.empty ∨ ∀ key, ¬ Claims book key sheetName coord
  | _ => True

def SpillBook.initial (cells : Cells κ) : SpillBook κ ρ :=
  ⟨cells, PyDict.empty, [], fun _ _ => none⟩

structure SpillInvariant (book : SpillBook κ ρ) : Prop where
  single : ∀ key other name coord, Claims book key name coord →
    Claims book other name coord → key = other
  own : ∀ key name coord, Registered book.registry key name coord →
    book.cells name coord = model.empty ∨ book.lastWritten key coord = some (book.cells name coord)
  free : ∀ spill ∈ book.pending, ∀ name coord, Scheduled spill name coord →
    book.cells name coord = model.empty ∨ Registered book.registry spill.key name coord
  origins : ∀ key, key.origin ∉ spillsOf book.registry key

variable {model} {url} {book : SpillBook κ ρ}

theorem spillInvariant_initial (cells : Cells κ) :
    SpillInvariant model (SpillBook.initial cells : SpillBook κ ρ) := by
  have unclaimed : ∀ key name coord,
      ¬ Claims (SpillBook.initial cells : SpillBook κ ρ) key name coord := by
    intro key name coord claims
    rcases claims with registered | ⟨spill, member, _⟩
    · exact not_mem_nil registered.2
    · exact not_mem_nil member
  constructor
  · intro key other name coord claims
    exact absurd claims (unclaimed key name coord)
  · intro key name coord registered
    exact absurd (Or.inl registered) (unclaimed key name coord)
  · intro spill member
    exact absurd member not_mem_nil
  · intro key member
    exact not_mem_nil member

theorem SpillInvariant.areasDisjoint (invariant : SpillInvariant model book) :
    AreasDisjoint book.registry :=
  fun key other name coord left right =>
    invariant.single key other name coord (Or.inl left) (Or.inl right)

theorem SpillInvariant.evaluate [DecidableEq κ]
    (invariant : SpillInvariant model book) {origin : Coord} {code : Text}
    {grid : List (List ρ)} (allowed : SpillAllowed model url book
      (.evaluate sheetName origin code grid)) :
    SpillInvariant model (book.evaluate model url sheetName origin code grid) := by
  unfold SpillBook.evaluate
  simp only
  split
  · rename_i checked
    simp only [Bool.and_eq_true, spillIsFree, all_eq_true,
      decide_eq_true_eq] at checked
    obtain ⟨_, checked⟩ := checked
    -- A target is claimed by nobody but the evaluated origin.
    have target : ∀ coord ∈ spillTargets origin grid, ∀ other,
        Claims book other sheetName coord → other = ⟨url, sheetName, origin⟩ := by
      intro coord member other claims
      rcases (checked coord member).2.2 with previous | empty
      · exact invariant.single _ _ sheetName coord claims (Or.inl ⟨rfl, previous⟩)
      · by_contra different
        exact allowed coord member other different claims empty
    constructor
    · intro key other name coord left right
      have split : ∀ {owner}, Claims { book with pending := book.pending ++
            [⟨⟨url, sheetName, origin⟩, grid, code⟩] } owner name coord →
          Claims book owner name coord ∨ (owner = ⟨url, sheetName, origin⟩ ∧ sheetName = name ∧
              coord ∈ spillTargets origin grid) := by
        intro owner claims
        rcases claims with registered | ⟨spill, member, rfl, scheduled⟩
        · exact Or.inl (Or.inl registered)
        · rcases mem_append.mp member with earlier | last
          · exact Or.inl (Or.inr ⟨spill, earlier, rfl, scheduled⟩)
          · obtain rfl := mem_singleton.mp last
            exact Or.inr ⟨rfl, scheduled⟩
      rcases split left with old | ⟨rfl, rfl, member⟩
      · rcases split right with old' | ⟨rfl, rfl, member⟩
        · exact invariant.single _ _ _ _ old old'
        · exact target coord member key old
      · rcases split right with old | ⟨rfl, _, _⟩
        · exact (target coord member other old).symm
        · rfl
    · exact invariant.own
    · intro spill member name coord scheduled
      rcases mem_append.mp member with earlier | last
      · exact invariant.free spill earlier name coord scheduled
      · obtain rfl := mem_singleton.mp last
        obtain ⟨rfl, inTargets⟩ := scheduled
        rcases (checked coord inTargets).2.2 with previous | empty
        · exact Or.inr ⟨rfl, previous⟩
        · exact Or.inl empty
    · exact invariant.origins
  · exact invariant

theorem SpillInvariant.perform_touches (invariant : SpillInvariant model book)
    {spill : PendingSpill ρ} (member : spill ∈ book.pending) :
    ∀ touch ∈ (performDeferredSpill model url book.cells book.registry spill).touched,
      touch.before = model.empty ∨ book.lastWritten touch.key touch.coord = some touch.before := by
  intro touch touched
  rcases performDeferredSpill_cases model url book.cells book.registry spill
    with skipped | ⟨_, spilled⟩
  · rw [skipped] at touched
    exact absurd touched not_mem_nil
  · rw [spilled.touchedEq] at touched
    rcases mem_append.mp touched with cleared | overwritten
    · obtain ⟨coord, inSpills, rfl⟩ := mem_map.mp cleared
      exact invariant.own spill.key _ coord ⟨rfl, (mem_filter.mp inSpills).1⟩
    · obtain ⟨coord, inTargets, rfl⟩ := mem_map.mp overwritten
      left
      have notOrigin : coord ≠ spill.key.origin := by
        rintro rfl
        exact origin_notMem_spillTargets _ _ inTargets
      rcases invariant.free spill member _ coord ⟨rfl, inTargets⟩ with
        empty | registered
      · rcases @clearSpills_cases κ ρ model spill.key.origin (spillsOf book.registry spill.key)
          (book.cells spill.key.sheetName) coord with same | cleared
        · exact same.trans empty
        · exact cleared.2
      · simp only [clearSpills]
        rw [if_pos ⟨registered.2, notOrigin⟩]

section Write

variable {spill : PendingSpill ρ} {outcome : SpillOutcome κ}

section

variable (spilled : Spilled model book.cells book.registry spill outcome)

include spilled

theorem Spilled.registered_iff : Registered outcome.registry key name coord ↔
      if key = spill.key then Scheduled spill name coord
      else Registered book.registry key name coord := by
  rw [Registered, spilled.registryEq, spillsOf_set]
  split
  · rename_i same
    subst same
    rfl
  · rfl

theorem Spilled.cells_of_unclaimed (member : spill ∈ book.pending)
    (unclaimed : ¬ Claims book spill.key name coord) :
    outcome.cells name coord = book.cells name coord := by
  by_cases sameSheet : name = spill.key.sheetName
  · subst sameSheet
    have notTarget : coord ∉ spillTargets spill.key.origin spill.grid :=
      fun inTargets => unclaimed (Or.inr ⟨spill, member, rfl, rfl, inTargets⟩)
    rw [spilled.outside coord notTarget]
    rcases @clearSpills_cases κ ρ model spill.key.origin (spillsOf book.registry spill.key)
      (book.cells spill.key.sheetName) coord with same | cleared
    · exact same
    · exact absurd (Or.inl ⟨rfl, cleared.1⟩) unclaimed
  · rw [spilled.otherSheet name sameSheet]

theorem Spilled.claims_of_registered (member : spill ∈ book.pending)
    (registered : Registered outcome.registry key name coord) :
    Claims book key name coord := by
  rw [spilled.registered_iff] at registered
  split at registered
  · next same => exact Or.inr ⟨spill, member, same.symm, registered⟩
  · exact Or.inl registered

end

end Write

section

variable (invariant : SpillInvariant model book)

include invariant

theorem SpillInvariant.afterWrite {index : Nat} {spill : PendingSpill ρ}
    {outcome : SpillOutcome κ} (member : spill ∈ book.pending)
    (spilled : Spilled model book.cells book.registry spill outcome) :
    SpillInvariant model (book.afterWrite index spill outcome) := by
  have fewer : ∀ other ∈ book.pending.eraseIdx index, other ∈ book.pending :=
    fun other => mem_of_mem_eraseIdx
  have claims : ∀ {key name coord}, Claims (book.afterWrite index spill outcome) key name coord →
        Claims book key name coord := by
    intro key name coord claimed
    rcases claimed with registered | ⟨p, inPending, rest⟩
    · exact spilled.claims_of_registered member registered
    · exact Or.inr ⟨p, fewer p inPending, rest⟩
  constructor
  · intro key other name coord left right
    exact invariant.single key other name coord (claims left) (claims right)
  · intro key name coord registered
    have before := spilled.registered_iff.mp registered
    change outcome.cells name coord = model.empty ∨
      (if key = spill.key ∧ coord ∈ outcome.written then
        some (outcome.cells key.sheetName coord)
      else book.lastWritten key coord) = some (outcome.cells name coord)
    by_cases same : key = spill.key
    · right
      rw [if_pos same] at before
      rw [if_pos ⟨same, by rw [spilled.writtenEq]; exact before.2⟩, same, before.1]
    · rw [if_neg same] at before
      have unclaimed : ¬ Claims book spill.key name coord := fun claim =>
        same (invariant.single key spill.key name coord (Or.inl before) claim)
      rw [if_neg fun both => same both.1, spilled.cells_of_unclaimed member unclaimed]
      exact invariant.own key name coord before
  · intro other inPending name coord scheduled
    have earlier := fewer other inPending
    have before := invariant.free other earlier name coord scheduled
    change outcome.cells name coord = model.empty ∨ Registered outcome.registry other.key name coord
    rw [spilled.registered_iff]
    by_cases same : other.key = spill.key
    · rw [if_pos same]
      by_cases target : Scheduled spill name coord
      · exact Or.inr target
      · left
        have nameEq : spill.key.sheetName = name := by
          rw [← same]
          exact scheduled.1
        subst nameEq
        rw [spilled.outside coord fun inTargets => target ⟨rfl, inTargets⟩]
        -- The cell is no target: it was empty, or is cleared now.
        rw [clearSpills]
        split
        · rfl
        · rename_i kept
          rcases before with empty | registered
          · exact empty
          · rw [same] at registered
            refine absurd ⟨registered.2, ?_⟩ kept
            rintro rfl
            exact invariant.origins spill.key registered.2
    · have unclaimed : ¬ Claims book spill.key name coord := fun claim =>
        same (invariant.single other.key spill.key name coord
          (Or.inr ⟨other, earlier, rfl, scheduled⟩) claim)
      rw [if_neg same, spilled.cells_of_unclaimed member unclaimed]
      exact before
  · intro key
    change key.origin ∉ spillsOf outcome.registry key
    rw [spilled.registryEq, spillsOf_set]
    split
    · rename_i same
      rw [same]
      exact origin_notMem_spillTargets _ _
    · exact invariant.origins key

theorem SpillInvariant.afterSkip (index : Nat) (spill : PendingSpill ρ) :
    SpillInvariant model (book.afterWrite index spill
      ⟨book.cells, book.registry, false, [], []⟩) := by
  have fewer : ∀ other ∈ book.pending.eraseIdx index, other ∈ book.pending :=
    fun other => mem_of_mem_eraseIdx
  have claims : ∀ {key name coord}, Claims (book.afterWrite index spill
        ⟨book.cells, book.registry, false, [], []⟩) key name coord →
          Claims book key name coord := by
    intro key name coord claimed
    rcases claimed with registered | ⟨p, inPending, rest⟩
    · exact Or.inl registered
    · exact Or.inr ⟨p, fewer p inPending, rest⟩
  constructor
  · intro key other name coord left right
    exact invariant.single key other name coord (claims left) (claims right)
  · intro key name coord registered
    simpa [SpillBook.afterWrite] using invariant.own key name coord registered
  · exact fun other inPending => invariant.free other (fewer other inPending)
  · exact invariant.origins

theorem SpillInvariant.perform (index : Nat) :
    SpillInvariant model (book.perform model url index) := by
  unfold SpillBook.perform
  split
  · exact invariant
  · rename_i spill found
    rcases performDeferredSpill_cases model url book.cells book.registry
      spill with skipped | ⟨_, spilled⟩
    · rw [skipped]
      exact invariant.afterSkip index spill
    · exact invariant.afterWrite (mem_of_getElem? found) spilled

theorem SpillInvariant.edit {content : κ} (allowed : content = model.empty ∨
      ∀ key, ¬ Claims book key sheetName coord) :
    SpillInvariant model (book.edit sheetName coord content) := by
  -- A claimed cell keeps its content or is emptied.
  have kept : ∀ {key name other}, Claims book key name other →
      (book.edit sheetName coord content).cells name other = model.empty ∨
        (book.edit sheetName coord content).cells name other = book.cells name other := by
    intro key name other claims
    by_cases edited : name = sheetName ∧ other = coord
    · rcases allowed with empty | unclaimed
      · simp [SpillBook.edit, edited, empty]
      · obtain ⟨rfl, rfl⟩ := edited
        exact absurd claims (unclaimed key)
    · simp [SpillBook.edit, edited]
  constructor
  · exact invariant.single
  · intro key name other registered
    rcases kept (Or.inl registered) with empty | same
    · exact Or.inl empty
    · rw [same]
      exact invariant.own key name other registered
  · intro spill member name other scheduled
    rcases kept (Or.inr ⟨spill, member, rfl, scheduled⟩) with empty | same
    · exact Or.inl empty
    · rw [same]
      exact invariant.free spill member name other scheduled
  · exact invariant.origins

end

/-- The loop invariant of a clean-up: cells keep their content or are
emptied, and the cells of a removed origin are all empty. -/
structure CleanUpInvariant (model : CellModel κ ρ) (registry : SpillRegistry)
    (sheetName : Text) (before : Coord → κ) (state : CleanUp κ) : Prop where
  kept : ∀ coord, state.sheet coord = before coord ∨ state.sheet coord = model.empty
  removed : ∀ key ∈ state.toRemove, ∀ coord ∈ spillsOf registry key,
    coord ≠ key.origin → state.sheet coord = model.empty
  touched : ∀ touch ∈ state.touched, Registered registry touch.key sheetName touch.coord ∧
      (touch.before = before touch.coord ∨ touch.before = model.empty)

theorem CleanUpInvariant.step {registry : SpillRegistry} {before : Coord → κ} {state : CleanUp κ}
    (invariant : CleanUpInvariant model registry sheetName before state)
    {entry : SpillKey × List Coord} (member : entry ∈ registry.entries) :
    CleanUpInvariant model registry sheetName before
      (cleanUpEntry model url sheetName state entry) := by
  obtain ⟨key, spills⟩ := entry
  have spillsEq : spillsOf registry key = spills := by
    rw [spillsOf, PyDict.get?_eq_some_iff.mpr member]
    rfl
  unfold cleanUpEntry
  simp only
  split_ifs
  · rename_i here _
    constructor
    · intro coord
      rcases @clearSpills_cases κ ρ model key.origin spills state.sheet coord with same | cleared
      · simp only [same]
        exact invariant.kept coord
      · exact Or.inr cleared.2
    · intro other inRemoved coord inSpills notOrigin
      rcases @clearSpills_cases κ ρ model key.origin spills state.sheet coord with same | cleared
      · rcases mem_append.mp inRemoved with earlier | last
        · simp only [same]
          exact invariant.removed other earlier coord inSpills notOrigin
        · obtain rfl := mem_singleton.mp last
          rw [spillsEq] at inSpills
          simp [clearSpills, inSpills, notOrigin]
      · exact cleared.2
    · intro touch inTouched
      rcases mem_append.mp inTouched with earlier | last
      · exact invariant.touched touch earlier
      · obtain ⟨coord, inSpills, rfl⟩ := mem_map.mp last
        refine ⟨⟨here.2, ?_⟩, invariant.kept coord⟩
        rw [spillsEq]
        exact (mem_filter.mp inSpills).1
  · exact invariant
  · exact invariant

theorem cleanUpInvariant_run (registry : SpillRegistry) (sheetName : Text) (before : Coord → κ) :
    CleanUpInvariant model registry sheetName before
      (registry.entries.foldl (cleanUpEntry model url sheetName) ⟨before, [], []⟩) := by
  have run : ∀ (entries : List (SpillKey × List Coord)) (state : CleanUp κ),
      (∀ entry ∈ entries, entry ∈ registry.entries) →
        CleanUpInvariant model registry sheetName before state →
          CleanUpInvariant model registry sheetName before
            (entries.foldl (cleanUpEntry model url sheetName) state) := by
    intro entries
    induction entries with
    | nil => exact fun _ _ invariant => invariant
    | cons entry rest ih =>
      intro state members invariant
      exact ih _ (fun other member =>
        members other (mem_cons_of_mem _ member))
        (invariant.step (members entry mem_cons_self))
  apply run _ _ fun _ member => member
  constructor
  · exact fun _ => Or.inl rfl
  · exact fun key member => absurd member not_mem_nil
  · exact fun touch member => absurd member not_mem_nil

section

variable (invariant : SpillInvariant model book)

include invariant

theorem SpillInvariant.cleanUp_touches (sheetName : Text) :
    ∀ touch ∈ (cleanUpOrphans model url sheetName book.cells book.registry).touched,
      touch.before = model.empty ∨ book.lastWritten touch.key touch.coord = some touch.before := by
  intro touch member
  have run := @cleanUpInvariant_run κ ρ model url book.registry sheetName (book.cells sheetName)
  obtain ⟨registered, same | empty⟩ := run.touched touch member
  · rw [same]
    exact invariant.own touch.key sheetName touch.coord registered
  · exact Or.inl empty

theorem SpillInvariant.cleanUp (sheetName : Text) :
    SpillInvariant model (book.cleanUp model url sheetName) := by
  have run := @cleanUpInvariant_run κ ρ model url book.registry sheetName (book.cells sheetName)
  have here := @mem_toRemove_cleanUp κ ρ model url sheetName
    book.registry.entries ⟨book.cells sheetName, [], []⟩
    fun key member => absurd member not_mem_nil
  unfold SpillBook.cleanUp cleanUpOrphans
  generalize book.registry.entries.foldl (cleanUpEntry model url sheetName)
    ⟨book.cells sheetName, [], []⟩ = state at run here
  have kept : ∀ name coord, setSheet book.cells sheetName state.sheet name coord =
          book.cells name coord ∨
        setSheet book.cells sheetName state.sheet name coord = model.empty := by
    intro name coord
    unfold setSheet
    split
    · rename_i same
      rw [same]
      exact run.kept coord
    · exact Or.inl rfl
  have fewer : ∀ {key name coord}, Registered (book.registry.filterKeys
      (· ∉ state.toRemove)) key name coord → Registered book.registry key name coord := by
    intro key name coord registered
    refine ⟨registered.1, ?_⟩
    have found := registered.2
    rw [spillsOf, PyDict.get?_filterKeys] at found
    split at found
    · exact found
    · exact absurd found not_mem_nil
  have claims : ∀ {key name coord},
      (Registered (book.registry.filterKeys (· ∉ state.toRemove)) key name coord ∨
        ∃ spill ∈ book.pending, spill.key = key ∧ Scheduled spill name coord) →
      Claims book key name coord := by
    intro key name coord claimed
    rcases claimed with registered | scheduled
    · exact Or.inl (fewer registered)
    · exact Or.inr scheduled
  constructor
  · intro key other name coord left right
    exact invariant.single key other name coord (claims left) (claims right)
  · intro key name coord registered
    rcases kept name coord with same | empty
    · simp only [same]
      exact invariant.own key name coord (fewer registered)
    · exact Or.inl empty
  · intro spill member name coord scheduled
    rcases kept name coord with same | empty
    · rcases invariant.free spill member name coord scheduled with
        free | registered
      · exact Or.inl (same.trans free)
      · by_cases removed : spill.key ∈ state.toRemove
        · left
          have nameEq : name = sheetName :=
            registered.1.symm.trans (here _ removed).2
          simp only [setSheet, nameEq, if_true]
          apply run.removed _ removed coord registered.2
          rintro rfl
          exact invariant.origins spill.key registered.2
        · right
          refine ⟨registered.1, ?_⟩
          rw [spillsOf, PyDict.get?_filterKeys, if_pos (by simpa using removed)]
          exact registered.2
    · exact Or.inl empty
  · intro key member
    apply invariant.origins key
    exact (fewer ⟨rfl, member⟩).2

theorem SpillInvariant.step [DecidableEq κ] {action : SpillAction κ ρ}
    (allowed : SpillAllowed model url book action) :
    SpillInvariant model (spillStep model url book action) := by
  cases action with
  | evaluate sheetName origin code grid => exact invariant.evaluate allowed
  | perform index => exact invariant.perform index
  | edit sheetName coord content => exact invariant.edit allowed
  | cleanUp sheetName => exact invariant.cleanUp sheetName

theorem SpillInvariant.touches (action : SpillAction κ ρ) :
    ∀ touch ∈ spillTouches model url book action, touch.before = model.empty ∨
        book.lastWritten touch.key touch.coord = some touch.before := by
  cases action with
  | evaluate sheetName origin code grid | edit sheetName coord content =>
    exact fun touch member => absurd member not_mem_nil
  | perform index =>
    intro touch member
    unfold spillTouches at member
    simp only at member
    split at member
    · exact absurd member not_mem_nil
    · rename_i spill found
      exact invariant.perform_touches (mem_of_getElem? found) touch member
  | cleanUp sheetName => exact invariant.cleanUp_touches sheetName

end

/-- **User data survives** every run in which no evaluation finds a cell empty
that another origin claims and no edit fills a claimed cell. -/
theorem spillSafe_of_allowed [DecidableEq κ] (model : CellModel κ ρ)
    (url : Text) (cells : Cells κ) (run : List (SpillAction κ ρ))
    (allowed : Along (spillStep model url) (SpillAllowed model url) (SpillBook.initial cells) run) :
    Along (spillStep model url) (SpillSafe model url) (SpillBook.initial cells) run := by
  refine Along.of_invariant (SpillInvariant model) ?_ ?_ (spillInvariant_initial cells) allowed
  · exact fun book action invariant isAllowed => invariant.step isAllowed
  · intro book action invariant isAllowed
    exact ⟨invariant.touches action, (invariant.step isAllowed).areasDisjoint⟩

end Book

def evaluateColumn : SpillAction Text Text :=
  .evaluate "Sheet1".toList (0, 0) "x".toList [["1".toList], ["2".toList]]

theorem spillSafe_of_allowed_column : Along (spillStep textCells "u".toList)
        (SpillAllowed textCells "u".toList)
        (SpillBook.initial columnSheet) [evaluateColumn, .perform 0] ∧
      Along (spillStep textCells "u".toList) (SpillSafe textCells "u".toList)
        (SpillBook.initial columnSheet) [evaluateColumn, .perform 0] := by
  have allowed : Along (spillStep textCells "u".toList) (SpillAllowed textCells "u".toList)
      (SpillBook.initial columnSheet) [evaluateColumn, .perform 0] := by
    refine ⟨?_, trivial, trivial⟩
    intro coord _ other _ claims
    rcases claims with registered | ⟨spill, member, _⟩
    · exact absurd registered.2 not_mem_nil
    · exact absurd member not_mem_nil
  exact ⟨allowed, spillSafe_of_allowed textCells _ columnSheet _ allowed⟩

/-- The user writes into A2 after the first spill; the second evaluation takes
the cell for its own, and the write destroys the content. -/
theorem not_spillSafe_userEdit :
    ¬ Along (spillStep textCells "u".toList) (SpillSafe textCells "u".toList)
      (SpillBook.initial columnSheet)
      [evaluateColumn, .perform 0, .edit "Sheet1".toList (1, 0) "user".toList,
        evaluateColumn, .perform 0] := by
  rintro ⟨_, _, _, _, ⟨touches, _⟩, _⟩
  have touched : (⟨⟨"u".toList, "Sheet1".toList, (0, 0)⟩, (1, 0),
      "user".toList⟩ : Touch Text) ∈ spillTouches textCells "u".toList
        ([evaluateColumn, .perform 0, .edit "Sheet1".toList (1, 0) "user".toList,
          evaluateColumn].foldl (spillStep textCells "u".toList)
            (SpillBook.initial columnSheet)) (.perform 0) := by
    exact mem_of_mem_head? rfl
  rcases touches _ touched with empty | own
  · exact absurd empty (by decide)
  · exact absurd own (by decide)

end WriterAgent.Calc.Python
