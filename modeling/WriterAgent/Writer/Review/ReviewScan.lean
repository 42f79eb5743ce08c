import WriterAgent.Foundations.Text
import Mathlib.Data.Finset.Basic

/-!
# Scans of the redline table

`plugin/writer/review_scan.py`: the tokens that mark the agent's redlines, and
the enumeration of the redline table that tells whether it has seen everything.
Each access to the document may raise; what raises in one scan is a parameter
of that scan.
-/

namespace WriterAgent.Writer

open PyText

def tokenPrefix : Text := "wa-review:".toList

/-- `session_token_prefix`: `wa-review:<session>:`. -/
def sessionTokenPrefix (session : Text) : Text :=
  tokenPrefix ++ session ++ [':']

/-- `make_agent_token`: `wa-review:<session>:<n>`. -/
def makeAgentToken (session : Text) (changeIndex : ℕ) : Text :=
  sessionTokenPrefix session ++ Nat.toDigits 10 changeIndex

def isAgentToken (comment : Text) : Bool :=
  !comment.isEmpty && tokenPrefix.isPrefixOf comment

/-- A range of one text object, from its start to its end. -/
structure Span where
  start : ℕ
  stop : ℕ
  ordered : start ≤ stop
  deriving Repr

instance : DecidableEq Span := fun a b =>
  decidable_of_iff (a.start = b.start ∧ a.stop = b.stop) (by cases a; cases b; simp)

namespace Span

/-- `gotoRange` with `expand=True`: the range grows to hold the other one. -/
def expand (span other : Span) : Span where
  start := min span.start other.start
  stop := max span.stop other.stop
  ordered := (min_le_left _ _).trans (span.ordered.trans (le_max_left _ _))

/-- The collapsed ranges at the ends, `getStart` and `getEnd`. -/
def atStart (span : Span) : Span := ⟨span.start, span.start, le_rfl⟩
def atEnd (span : Span) : Span := ⟨span.stop, span.stop, le_rfl⟩

/-- `compareRegionStarts`: 1 when the first range starts before the second. -/
def compareRegionStarts (first second : Span) : ℤ :=
  if first.start < second.start then 1
  else if first.start = second.start then 0 else -1

/-- `compareRegionEnds`: -1 when the first range ends behind the second. -/
def compareRegionEnds (first second : Span) : ℤ :=
  if first.stop < second.stop then 1
  else if first.stop = second.stop then 0 else -1

/-- Two ranges share a point, be it an end of both. -/
def Touches (span other : Span) : Prop :=
  span.start ≤ other.stop ∧ other.start ≤ span.stop

instance (span other : Span) : Decidable (span.Touches other) :=
  inferInstanceAs (Decidable (_ ∧ _))

/-- A range within another one. -/
def Within (span other : Span) : Prop :=
  other.start ≤ span.start ∧ span.stop ≤ other.stop

end Span

/-- A tracked change: `RedlineIdentifier`, `RedlineComment` and the range from
`RedlineStart` to `RedlineEnd` in a text object. -/
structure Redline (τ : Type) where
  identifier : ℕ
  comment : Text
  text : τ
  span : Span
  deriving DecidableEq

/-- What asking an enumeration for its next element does. -/
inductive EnumStep where
  | element
  | exhausted
  | raised
  deriving DecidableEq, Repr

/-- What `on_item` says: `True`, `False` or `RedlineScanAbort`. -/
inductive ItemAnswer where
  | classified
  | unclassified
  | abort
  deriving DecidableEq, Repr

/-- The accesses that raise in one scan: the opening of the enumeration, each
step of it and, by position, the reads of a redline. -/
structure ScanFaults where
  opening : Bool
  step : ℕ → EnumStep
  comment : ℕ → Bool
  identifier : ℕ → Bool
  bounds : ℕ → Bool
  noBounds : ℕ → Bool
  range : ℕ → Bool
  textObject : ℕ → Bool
  comparison : ℕ → Bool

def ScanFaults.none : ScanFaults where
  opening := false
  step _ := .element
  comment _ := false
  identifier _ := false
  bounds _ := false
  noBounds _ := false
  range _ := false
  textObject _ := false
  comparison _ := false

/-- What `scan_redlines` returns, with what `on_item` has gathered. -/
structure Scan (σ : Type) where
  gathered : σ
  reliable : Bool
  seen : ℕ
  total : ℕ

variable {faults : ScanFaults}

section Scan

variable {α σ : Type}

/-- The loop of `scan_redlines` from one position of the table on. -/
def scanFrom (step : ℕ → EnumStep) (onItem : ℕ → σ → α → σ × ItemAnswer) :
    ℕ → List α → σ → Bool → σ × Bool × ℕ
  | seen, [], gathered, reliable => (gathered, reliable, seen)
  | seen, item :: rest, gathered, reliable =>
    match step seen with
    | .raised => (gathered, false, seen)
    | .exhausted => (gathered, reliable, seen)
    | .element =>
      match onItem seen gathered item with
      | (gathered, .abort) => (gathered, false, seen + 1)
      | (gathered, .unclassified) => scanFrom step onItem (seen + 1) rest gathered false
      | (gathered, .classified) => scanFrom step onItem (seen + 1) rest gathered reliable

def scanRedlines (faults : ScanFaults) (redlines : List α)
    (onItem : ℕ → σ → α → σ × ItemAnswer) (initial : σ) : Scan σ :=
  if faults.opening then ⟨initial, false, 0, 0⟩
  else
    let (gathered, reliable, seen) :=
      scanFrom faults.step onItem 0 redlines initial true
    ⟨gathered, reliable && seen == redlines.length, seen, redlines.length⟩

/-- What `on_item` gathers when it is asked about every item. -/
def gatherFrom (onItem : ℕ → σ → α → σ × ItemAnswer) : ℕ → List α → σ → σ
  | _, [], gathered => gathered
  | seen, item :: rest, gathered => gatherFrom onItem (seen + 1) rest (onItem seen gathered item).1

def Classifies (onItem : ℕ → σ → α → σ × ItemAnswer) : ℕ → List α → σ → Prop
  | _, [], _ => True
  | seen, item :: rest, gathered =>
    (onItem seen gathered item).2 = .classified ∧
      Classifies onItem (seen + 1) rest (onItem seen gathered item).1

variable {step : ℕ → EnumStep} {onItem : ℕ → σ → α → σ × ItemAnswer}
  {items : List α} {start : ℕ} {initial : σ}

theorem scanFrom_unreliable : (scanFrom step onItem start items initial false).2.1 = false := by
  induction items generalizing start initial with
  | nil => rfl
  | cons item rest ih =>
    rw [scanFrom]
    cases step start with
    | raised => rfl
    | exhausted => rfl
    | element =>
      simp only
      split
      · rfl
      · exact ih
      · exact ih

theorem scanFrom_reliable (reliable : (scanFrom step onItem start items initial true).2.1 = true)
    (complete : (scanFrom step onItem start items initial true).2.2 = start + items.length) :
    Classifies onItem start items initial ∧ (scanFrom step onItem start items initial true).1 =
        gatherFrom onItem start items initial := by
  induction items generalizing start initial with
  | nil => exact ⟨trivial, rfl⟩
  | cons item rest ih =>
    rw [scanFrom] at reliable complete ⊢
    cases isStep : step start with
    | raised =>
      rw [isStep] at reliable
      cases reliable
    | exhausted =>
      rw [isStep, List.length_cons] at complete
      simp only at complete
      omega
    | element =>
      simp only [isStep] at reliable complete ⊢
      rcases answer : onItem start initial item with ⟨gathered, answered⟩
      cases answered with
      | abort =>
        simp only [answer] at reliable
        cases reliable
      | unclassified =>
        simp only [answer] at reliable
        rw [scanFrom_unreliable] at reliable
        cases reliable
      | classified =>
        simp only [answer] at reliable complete ⊢
        rw [List.length_cons] at complete
        obtain ⟨classifies, gathers⟩ :=
          ih reliable (complete.trans (by omega))
        rw [Classifies, gatherFrom, answer]
        exact ⟨⟨rfl, classifies⟩, gathers⟩

/-- **Reliable scans.** A reliable scan has asked about every redline, and each
was classified. -/
theorem scanRedlines_reliable
    (reliable : (scanRedlines faults items onItem initial).reliable = true) :
    Classifies onItem 0 items initial ∧ (scanRedlines faults items onItem initial).gathered =
        gatherFrom onItem 0 items initial := by
  rw [scanRedlines] at reliable ⊢
  by_cases opening : faults.opening = true
  · rw [if_pos opening] at reliable
    cases reliable
  · rw [if_neg opening] at reliable ⊢
    obtain ⟨sound, complete⟩ := Bool.and_eq_true_iff.mp reliable
    apply scanFrom_reliable sound
    rw [Nat.zero_add]
    exact eq_of_beq complete

theorem scanRedlines_complete (opens : faults.opening = false)
    (elements : ∀ seen, faults.step seen = .element)
    (classifies : Classifies onItem 0 items initial) :
    (scanRedlines faults items onItem initial).reliable = true := by
  have whole : ∀ {start : ℕ} {items : List α} {initial : σ}, Classifies onItem start items initial →
        (scanFrom faults.step onItem start items initial true).2.1 = true ∧
          (scanFrom faults.step onItem start items initial true).2.2 = start + items.length := by
    intro start items
    induction items generalizing start with
    | nil => exact fun _ => ⟨rfl, rfl⟩
    | cons item rest ih =>
      intro initial each
      obtain ⟨first, later⟩ := each
      rw [scanFrom, elements]
      rcases answer : onItem start initial item with ⟨gathered, answered⟩
      rw [answer] at first later
      cases first
      obtain ⟨reliable, seen⟩ := ih later
      refine ⟨reliable, seen.trans ?_⟩
      rw [List.length_cons]
      omega
  obtain ⟨reliable, seen⟩ := whole classifies
  rw [scanRedlines, opens, if_neg Bool.false_ne_true]
  simp only [reliable, seen, Nat.zero_add, beq_self_eq_true, Bool.and_self]

end Scan

end WriterAgent.Writer
