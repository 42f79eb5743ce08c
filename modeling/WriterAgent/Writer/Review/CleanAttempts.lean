import WriterAgent.Writer.Review.ResolveSafety

/-!
# Attempts without failures

When nothing raises, a guard stops only at a redline that is really there, and
the bounds of a change are the least range with all its marks.
-/

namespace WriterAgent.Writer

open PyText

variable {τ : Type}

theorem agentTokens_subset {before after : ReviewDocument τ}
    (fewer : after.redlines.Sublist before.redlines) :
    after.agentTokens ⊆ before.agentTokens := by
  intro token member
  obtain ⟨agent, redline, there, same⟩ :=
    ReviewDocument.mem_agentTokens.mp member
  exact ReviewDocument.mem_agentTokens.mpr ⟨agent, redline, fewer.subset there, same⟩

/-- Nothing raises, and dispatches resolve all that they reach. -/
structure Dispatch.Complete (dispatch : Dispatch τ) : Prop where
  resolves : ∀ redline, dispatch.resolves redline = true
  quiet : dispatch.raises = false

/-- No access of a call raises, on the path that resolve-all takes. -/
structure ResolveFaults.Clean (faults : ResolveFaults τ) : Prop where
  before : faults.before = .none
  bounds : faults.bounds = .none
  union : faults.union = false
  view : faults.view = false
  paragraphCursor : faults.paragraphCursor = false
  paragraphForeign : faults.paragraphForeign = .none
  paragraphSelection : faults.paragraphSelection = false
  paragraphDispatch : faults.paragraphDispatch.Complete
  after : faults.after = .none

structure PassFaults.Clean (faults : PassFaults τ) : Prop where
  current : faults.current = .none
  resolve : faults.resolve.Clean
  after : faults.after = .none

structure ResolveAllFaults.Clean (faults : ResolveAllFaults τ) : Prop where
  before : faults.before = .none
  count : faults.count = false
  allAgent : faults.allAgent = .none
  dispatcher : faults.dispatcher = false
  globalDispatch : faults.globalDispatch.Complete
  globalAfter : faults.globalAfter = .none
  pass : ∀ number, (faults.pass number).Clean
  final : faults.final = .none

theorem classifies_snapshot (redlines : List (Redline τ)) (start : ℕ) (snapshot : RedlineSnapshot) :
    Classifies (snapshotItem .none) start redlines snapshot := by
  induction redlines generalizing start snapshot with
  | nil => trivial
  | cons redline rest ih =>
    refine ⟨?_, ih _ _⟩
    rw [snapshotItem]
    cases isAgentToken redline.comment <;> rfl

variable {document : ReviewDocument τ} {token : Text} {text : τ} {span : Span}

theorem takeSnapshot_none (document : ReviewDocument τ) : takeSnapshot .none document =
      ⟨document.agentTokens, document.foreignIds, true, true⟩ :=
  takeSnapshot_of_reliable (scanRedlines_complete rfl (fun _ => rfl)
    (classifies_snapshot document.redlines 0 _))

variable [DecidableEq τ]

theorem spanHasRedline_complete {consider : Option Text → Bool}
    (stops : spanHasRedline .none document text span consider = true) :
    ∃ redline ∈ document.redlines, consider (some redline.comment) = true ∧
      redline.InReach text span := by
  by_contra clear
  push Not at clear
  have classifies : ∀ (redlines : List (Redline τ)) (start : ℕ),
      (∀ redline ∈ redlines, consider (some redline.comment) = true → ¬ redline.InReach text span) →
      Classifies (overlapItem .none text span consider) start redlines false ∧
        gatherFrom (overlapItem .none text span consider) start redlines false =
          false := by
    intro redlines
    induction redlines with
    | nil => exact fun _ _ => ⟨trivial, rfl⟩
    | cons redline rest ih =>
      intro start outside
      have passes : overlapItem .none text span consider start false redline =
          (false, .classified) := by
        have here := outside redline (.head _)
        rw [overlapItem]
        simp only [ScanFaults.none, Bool.false_eq_true, if_false,
          Bool.or_false, Bool.not_false, Bool.true_and]
        cases considers : consider (some redline.comment) with
        | false => simp
        | true =>
          by_cases elsewhere : redline.text = text
          · have apart : spansOverlap span redline.span = false := by
              rw [← Bool.not_eq_true, spansOverlap_iff]
              exact fun touches => here considers ⟨elsewhere, touches⟩
            simp [elsewhere, apart]
          · simp [elsewhere]
      have later := ih (start + 1) fun redline member => outside redline (.tail _ member)
      rw [Classifies, gatherFrom, passes]
      exact ⟨⟨rfl, later.1⟩, later.2⟩
  obtain ⟨each, gathered⟩ := classifies document.redlines 0 clear
  have reliable : (scanRedlines .none document.redlines
      (overlapItem .none text span consider) false).reliable = true :=
    scanRedlines_complete rfl (fun _ => rfl) each
  rw [spanHasRedline, reliable, (scanRedlines_reliable reliable).2, gathered] at stops
  cases stops

theorem startOfParagraph_mono (paragraphs : List ℕ) {first second : ℕ} (ordered : first ≤ second) :
    startOfParagraph paragraphs first ≤ startOfParagraph paragraphs second := by
  induction paragraphs generalizing first second with
  | nil => exact ordered
  | cons length rest ih =>
    rw [startOfParagraph, startOfParagraph]
    split
    · exact Nat.zero_le _
    · rw [if_neg (by omega)]
      have := ih (Nat.sub_le_sub_right ordered (length + 1))
      omega

theorem endOfParagraph_mono (paragraphs : List ℕ) {first second : ℕ} (ordered : first ≤ second) :
    endOfParagraph paragraphs first ≤ endOfParagraph paragraphs second := by
  induction paragraphs generalizing first second with
  | nil => exact ordered
  | cons length rest ih =>
    rw [endOfParagraph, endOfParagraph]
    split
    · split <;> omega
    · rw [if_neg (by omega)]
      have := ih (Nat.sub_le_sub_right ordered (length + 1))
      omega

theorem paragraphSpan_mono (paragraphs : List ℕ) {wider : Span} (within : span.Within wider) :
    (paragraphSpan paragraphs span).Within (paragraphSpan paragraphs wider) :=
  ⟨startOfParagraph_mono paragraphs within.1,
    endOfParagraph_mono paragraphs within.2⟩

theorem within_paragraphSpan (paragraphs : List ℕ) (span : Span) :
    span.Within (paragraphSpan paragraphs span) :=
  ⟨startOfParagraph_le _ _, le_endOfParagraph _ _⟩

omit [DecidableEq τ] in
theorem Span.Within.trans {first second third : Span}
    (left : first.Within second) (right : second.Within third) :
    first.Within third :=
  ⟨right.1.trans left.1, left.2.trans right.2⟩

theorem expandAll_spec {ranges : List (τ × Span)} {whole : Span}
    (union : expandAll text span ranges = some whole) :
    span.Within whole ∧ (∀ range ∈ ranges, range.1 = text ∧ range.2.Within whole) ∧
      ∀ bound : Span, span.Within bound →
        (∀ range ∈ ranges, range.2.Within bound) → whole.Within bound := by
  induction ranges generalizing span with
  | nil =>
    cases union
    refine ⟨⟨le_rfl, le_rfl⟩, ?_, fun _ within _ => within⟩
    exact fun _ member => nomatch member
  | cons range rest ih =>
    obtain ⟨other, first⟩ := range
    rw [expandAll] at union
    split_ifs at union with same
    obtain ⟨grown, each, least⟩ := ih union
    have here : span.Within whole ∧ first.Within whole := by
      simp only [Span.Within, Span.expand] at grown ⊢
      omega
    refine ⟨here.1, ?_, ?_⟩
    · intro range member
      rcases List.mem_cons.mp member with rfl | behind
      · exact ⟨same, here.2⟩
      · exact each range behind
    · intro bound within all
      apply least bound
      · have firstWithin := all _ (.head _)
        simp only [Span.Within, Span.expand] at within firstWithin ⊢
        omega
      · exact fun range member => all range (.tail _ member)

theorem expandAll_some {ranges : List (τ × Span)}
    (oneText : ∀ range ∈ ranges, range.1 = text) (span : Span) :
    ∃ whole, expandAll text span ranges = some whole := by
  induction ranges generalizing span with
  | nil => exact ⟨span, rfl⟩
  | cons range rest ih =>
    rw [expandAll, if_pos (oneText _ (.head _))]
    exact ih (fun range member => oneText range (.tail _ member)) _

def ReviewDocument.ranges (document : ReviewDocument τ) (token : Text) : List (τ × Span) :=
  (document.redlines.filter (·.comment = token)).map fun redline => (redline.text, redline.span)

omit [DecidableEq τ] in
theorem ReviewDocument.mem_ranges {range : τ × Span} :
    range ∈ document.ranges token ↔ ∃ redline ∈ document.redlines,
      redline.comment = token ∧ (redline.text, redline.span) = range := by
  simp [ReviewDocument.ranges, and_assoc]

omit [DecidableEq τ] in
theorem scan_bounds (document : ReviewDocument τ) (token : Text) :
    (scanRedlines .none document.redlines (boundsItem .none token) []).reliable = true ∧
      (scanRedlines .none document.redlines (boundsItem .none token)
        []).gathered = document.ranges token := by
  have classifies : ∀ (redlines : List (Redline τ)) (start : ℕ) (ranges : List (τ × Span)),
      Classifies (boundsItem .none token) start redlines ranges ∧
        gatherFrom (boundsItem .none token) start redlines ranges =
          ranges ++ (redlines.filter (·.comment = token)).map
            fun redline => (redline.text, redline.span) := by
    intro redlines
    induction redlines with
    | nil => exact fun _ ranges => ⟨trivial, (List.append_nil _).symm⟩
    | cons redline rest ih =>
      intro start ranges
      rw [Classifies, gatherFrom]
      by_cases same : redline.comment = token
      · have item : boundsItem .none token start ranges redline =
            (ranges ++ [(redline.text, redline.span)], .classified) := by
          simp [boundsItem, ScanFaults.none, same]
        rw [item]
        obtain ⟨each, gathers⟩ :=
          ih (start + 1) (ranges ++ [(redline.text, redline.span)])
        refine ⟨⟨rfl, each⟩, gathers.trans ?_⟩
        simp [same]
      · have item : boundsItem .none token start ranges redline = (ranges, .classified) := by
          simp [boundsItem, ScanFaults.none, same]
        rw [item]
        obtain ⟨each, gathers⟩ := ih (start + 1) ranges
        refine ⟨⟨rfl, each⟩, gathers.trans ?_⟩
        simp [same]
  obtain ⟨each, gathers⟩ := classifies document.redlines 0 []
  have reliable : (scanRedlines .none document.redlines
      (boundsItem .none token) []).reliable = true :=
    scanRedlines_complete rfl (fun _ => rfl) each
  exact ⟨reliable, (scanRedlines_reliable reliable).2.trans (gathers.trans (List.nil_append _))⟩

theorem changeBounds_spec (bounds : changeBounds .none false document token = some (text, span)) :
    (∀ range ∈ document.ranges token, range.1 = text ∧ range.2.Within span) ∧
      document.ranges token ≠ [] ∧
      ∀ bound : Span, (∀ range ∈ document.ranges token, range.2.Within bound) →
          span.Within bound := by
  obtain ⟨reliable, gathered⟩ := scan_bounds document token
  rw [changeBounds] at bounds
  simp only [reliable, gathered, Bool.not_true, Bool.or_self,
    Bool.false_eq_true, if_false] at bounds
  cases ranges : document.ranges token with
  | nil =>
    rw [ranges] at bounds
    cases bounds
  | cons first rest =>
    obtain ⟨firstText, firstSpan⟩ := first
    rw [ranges] at bounds
    obtain ⟨whole, union, same⟩ := Option.map_eq_some_iff.mp bounds
    cases same
    obtain ⟨-, each, least⟩ := expandAll_spec union
    refine ⟨each, List.cons_ne_nil _ _, fun bound within => ?_⟩
    apply least bound _ within
    have firstWithin := within _ (.head _)
    exact ⟨firstWithin.1, firstSpan.ordered.trans firstWithin.2⟩

/-- All marks of each agent change are in one text object. -/
def ReviewDocument.OneText (document : ReviewDocument τ) : Prop :=
  ∀ first ∈ document.redlines, ∀ second ∈ document.redlines,
    isAgentToken first.comment = true → first.comment = second.comment →
      first.text = second.text

theorem changeBounds_some (oneText : document.OneText) (pending : token ∈ document.agentTokens) :
    ∃ text span, changeBounds .none false document token = some (text, span) := by
  obtain ⟨agent, redline, member, isToken⟩ :=
    ReviewDocument.mem_agentTokens.mp pending
  obtain ⟨reliable, gathered⟩ := scan_bounds document token
  have there : (redline.text, redline.span) ∈ document.ranges token :=
    ReviewDocument.mem_ranges.mpr ⟨redline, member, isToken, rfl⟩
  rw [changeBounds]
  simp only [reliable, gathered, Bool.not_true, Bool.or_self, Bool.false_eq_true, if_false]
  cases ranges : document.ranges token with
  | nil =>
    rw [ranges] at there
    cases there
  | cons first rest =>
    obtain ⟨firstText, firstSpan⟩ := first
    have same : ∀ range ∈ (firstText, firstSpan) :: rest, range.1 = firstText := by
      intro range inRanges
      have firstIn : (firstText, firstSpan) ∈ document.ranges token := by
        rw [ranges]
        exact .head _
      rw [← ranges] at inRanges
      obtain ⟨one, oneMember, oneToken, rfl⟩ :=
        ReviewDocument.mem_ranges.mp inRanges
      obtain ⟨two, twoMember, twoToken, twoRange⟩ :=
        ReviewDocument.mem_ranges.mp firstIn
      cases twoRange
      exact oneText one oneMember two twoMember (oneToken ▸ agent) (oneToken.trans twoToken.symm)
    obtain ⟨whole, union⟩ := expandAll_some same firstSpan.atStart
    exact ⟨firstText, whole, by simp only [union, Option.map_some]⟩

def foreignRedline (redline : Redline τ) : Bool := !isAgentToken redline.comment

/-- A redline of the user lies in the paragraphs that a change spans. -/
def Blocked (document : ReviewDocument τ) (token : Text) : Prop :=
  ∃ text span, changeBounds .none false document token = some (text, span) ∧
    ∃ redline ∈ document.redlines, foreignRedline redline = true ∧
      redline.InReach text (paragraphSpan (document.paragraphs text) span)

theorem Blocked.mono {original : ReviewDocument τ} (oneText : original.OneText)
    (keeps : Keeps foreignRedline original document) (pending : token ∈ document.agentTokens)
    (blocked : Blocked document token) : Blocked original token := by
  obtain ⟨text, span, bounds, redline, member, foreign, reach⟩ := blocked
  obtain ⟨wholeText, whole, wholeBounds⟩ := changeBounds_some oneText
    (agentTokens_subset keeps.fewer pending)
  obtain ⟨-, nonempty, least⟩ := changeBounds_spec bounds
  obtain ⟨wholeEach, -, -⟩ := changeBounds_spec wholeBounds
  have still : ∀ range ∈ document.ranges token, range ∈ original.ranges token := by
    intro range inRanges
    obtain ⟨mark, inDocument, isToken, isRange⟩ :=
      ReviewDocument.mem_ranges.mp inRanges
    exact ReviewDocument.mem_ranges.mpr ⟨mark, keeps.fewer.subset inDocument, isToken, isRange⟩
  have within : span.Within whole :=
    least whole fun range inRanges =>
      (wholeEach range (still range inRanges)).2
  obtain ⟨first, rest, ranges⟩ := List.exists_cons_of_ne_nil nonempty
  have firstIn : first ∈ document.ranges token := by
    rw [ranges]
    exact .head _
  have sameText : wholeText = text :=
    (wholeEach first (still first firstIn)).1.symm.trans
      ((changeBounds_spec bounds).1 first firstIn).1
  subst sameText
  refine ⟨wholeText, whole, wholeBounds, redline, keeps.fewer.subset member, foreign, reach.1, ?_⟩
  rw [← keeps.paragraphs]
  have wider := paragraphSpan_mono (document.paragraphs wholeText) within
  exact ⟨reach.2.1.trans wider.2, wider.1.trans reach.2.2⟩

omit [DecidableEq τ] in
theorem foreignIds_eq {first second : ReviewDocument τ}
    (keeps : Keeps foreignRedline first second) :
    second.foreignIds = first.foreignIds := by
  rw [ReviewDocument.foreignIds, ReviewDocument.foreignIds]
  exact congrArg (fun redlines : List (Redline τ) =>
    (redlines.map (·.identifier)).toFinset) keeps.kept

theorem resolveAgentChange_clean {faults : ResolveFaults τ} (clean : faults.Clean)
    (oneText : document.OneText) (pending : token ∈ document.agentTokens) :
    Blocked document token ∨ (resolveAgentChange faults document token false false).answer =
        some true := by
  obtain ⟨text, span, bounds⟩ := changeBounds_some oneText pending
  let paragraphs := paragraphSpan (document.paragraphs text) span
  cases guard : foreignRedlineInSpan .none document text paragraphs with
  | true =>
    left
    obtain ⟨redline, member, foreign, reach⟩ := spanHasRedline_complete guard
    exact ⟨text, span, bounds, redline, member, foreign, reach⟩
  | false =>
    have keeps : Keeps foreignRedline document (dispatchResolve
        faults.paragraphDispatch document text paragraphs) := by
      apply dispatchResolve_keeps
      intro redline member foreign
      exact spanHasRedline_sound rfl guard redline member foreign
    have gone : token ∉ (dispatchResolve faults.paragraphDispatch document
        text paragraphs).agentTokens := by
      intro there
      obtain ⟨-, redline, member, isToken⟩ :=
        ReviewDocument.mem_agentTokens.mp there
      obtain ⟨inDocument, stays⟩ := List.mem_filter.mp member
      have inRanges := ReviewDocument.mem_ranges.mpr ⟨redline, inDocument, isToken, rfl⟩
      obtain ⟨sameText, within⟩ := (changeBounds_spec bounds).1 _ inRanges
      have reach : redline.InReach text paragraphs := by
        have inside := within.trans (within_paragraphSpan (document.paragraphs text) span)
        have ordered := redline.span.ordered
        exact ⟨sameText, ordered.trans inside.2, inside.1.trans ordered⟩
      simp [reach, clean.paragraphDispatch.resolves redline] at stays
    rw [resolveAgentChange]
    simp only [clean.before, takeSnapshot_none, pending, not_true_eq_false,
      if_false, Bool.not_true, Bool.or_self, Bool.false_eq_true,
      clean.bounds, clean.union, bounds, clean.view, Resolution.andThen]
    rw [resolveParagraph]
    simp only [clean.paragraphCursor, clean.paragraphForeign, guard, Bool.false_and,
      clean.paragraphSelection, clean.paragraphDispatch.quiet, clean.after, takeSnapshot_none,
      foreignIds_eq keeps, gone, Bool.false_eq_true, if_false, paragraphs]
    simp

end WriterAgent.Writer
