import WriterAgent.Writer.Review.InlineReview
import Mathlib.Data.Finset.Basic
import Mathlib.Data.Finset.Dedup

/-!
# Safety of resolving one change

A reliable snapshot is the truth about the redline table, and a guard that lets
a span pass has seen every redline that must be kept outside of it.
-/

namespace WriterAgent.Writer

open PyText List

variable {τ : Type}
variable {document : ReviewDocument τ} {faults : ScanFaults} {text : τ}
  {span : Span} {token : Text} {consider : Option Text → Bool}
  {redlines : List (Redline τ)} {isUnsafe refuseSiblingAgent : Bool}

namespace ReviewDocument

def agentTokens (document : ReviewDocument τ) : Finset Text :=
  ((document.redlines.map (·.comment)).filter isAgentToken).toFinset

def foreignIds (document : ReviewDocument τ) : Finset ℕ :=
  ((document.redlines.filter (!isAgentToken ·.comment)).map (·.identifier)).toFinset

theorem mem_agentTokens : token ∈ document.agentTokens ↔ isAgentToken token = true ∧
        ∃ redline ∈ document.redlines, redline.comment = token := by
  simp only [agentTokens, mem_toFinset, mem_filter, mem_map]
  exact and_comm

end ReviewDocument

def RedlineSnapshot.addAll (snapshot : RedlineSnapshot)
    (redlines : List (Redline τ)) : RedlineSnapshot :=
  { snapshot with
    agentTokens := snapshot.agentTokens ∪ ((redlines.map (·.comment)).filter isAgentToken).toFinset
    foreignIds := snapshot.foreignIds ∪ ((redlines.filter (!isAgentToken ·.comment)).map
        (·.identifier)).toFinset }

theorem gather_snapshot {start : ℕ} {snapshot : RedlineSnapshot} (classifies :
      Classifies (snapshotItem faults) start redlines snapshot) :
    gatherFrom (snapshotItem faults) start redlines snapshot = snapshot.addAll redlines := by
  induction redlines generalizing start snapshot with
  | nil => simp [gatherFrom, RedlineSnapshot.addAll]
  | cons redline rest ih =>
    obtain ⟨first, later⟩ := classifies
    rw [gatherFrom, ih later]
    rw [snapshotItem] at first ⊢
    by_cases unreadable : faults.comment start = true
    · rw [if_pos unreadable] at first
      cases first
    · rw [if_neg unreadable] at first ⊢
      by_cases agent : isAgentToken redline.comment = true
      · simp [RedlineSnapshot.addAll, agent]
      · rw [if_neg agent] at first ⊢
        by_cases noIdentifier : faults.identifier start = true
        · rw [if_pos noIdentifier] at first
          cases first
        · rw [if_neg noIdentifier]
          simp [RedlineSnapshot.addAll, agent]

theorem takeSnapshot_of_reliable
    (reliable : (scanRedlines faults document.redlines (snapshotItem faults)
      ⟨∅, ∅, true, true⟩).reliable = true) :
    takeSnapshot faults document = ⟨document.agentTokens, document.foreignIds, true, true⟩ := by
  obtain ⟨classifies, gathers⟩ := scanRedlines_reliable reliable
  rw [takeSnapshot]
  simp only [gathers, reliable, gather_snapshot classifies,
    RedlineSnapshot.addAll, Finset.empty_union, Bool.and_self]
  rfl

/-- **Snapshots.** A snapshot with reliable tokens is the whole truth. -/
theorem takeSnapshot_of_tokensReliable
    (reliable : (takeSnapshot faults document).tokensReliable = true) :
    takeSnapshot faults document = ⟨document.agentTokens, document.foreignIds, true, true⟩ :=
  takeSnapshot_of_reliable (Bool.and_eq_true_iff.mp reliable).2

theorem takeSnapshot_of_foreignReliable
    (reliable : (takeSnapshot faults document).foreignReliable = true) :
    takeSnapshot faults document = ⟨document.agentTokens, document.foreignIds, true, true⟩ :=
  takeSnapshot_of_reliable (Bool.and_eq_true_iff.mp reliable).2

theorem gone_of_snapshot (agent : isAgentToken token)
    (reliable : (takeSnapshot faults document).tokensReliable = true)
    (missing : token ∉ (takeSnapshot faults document).agentTokens) :
    ∀ redline ∈ document.redlines, redline.comment ≠ token := by
  intro redline member same
  apply missing
  rw [takeSnapshot_of_tokensReliable reliable]
  exact ReviewDocument.mem_agentTokens.mpr ⟨agent, redline, member, same⟩

/-- No redline comes, those to protect stay, and so do the paragraphs. -/
structure Keeps (protect : Redline τ → Bool) (before after : ReviewDocument τ) : Prop where
  fewer : after.redlines.Sublist before.redlines
  kept : after.redlines.filter protect = before.redlines.filter protect
  paragraphs : after.paragraphs = before.paragraphs

section Keeps

variable {protect : Redline τ → Bool} {first second third : ReviewDocument τ}

theorem Keeps.refl (document : ReviewDocument τ) : Keeps protect document document :=
  ⟨List.Sublist.refl _, rfl, rfl⟩

theorem Keeps.trans (left : Keeps protect first second)
    (right : Keeps protect second third) : Keeps protect first third :=
  ⟨right.fewer.trans left.fewer, right.kept.trans left.kept,
    right.paragraphs.trans left.paragraphs⟩

theorem Keeps.mono {weaker : Redline τ → Bool} (keeps : Keeps protect first second)
    (implies : ∀ redline, weaker redline = true → protect redline = true) :
    Keeps weaker first second := by
  have filtered : ∀ redlines : List (Redline τ),
      redlines.filter weaker = (redlines.filter protect).filter weaker := by
    intro redlines
    rw [filter_filter]
    apply filter_congr
    intro redline _
    cases holds : weaker redline with
    | true => rw [implies redline holds, Bool.and_self]
    | false => rw [Bool.false_and]
  refine ⟨keeps.fewer, ?_, keeps.paragraphs⟩
  rw [filtered, keeps.kept, ← filtered]

theorem keeps_filter (document : ReviewDocument τ) (stays : Redline τ → Bool)
    (safe : ∀ redline ∈ document.redlines, protect redline = true → stays redline = true) :
    Keeps protect document
      { document with redlines := document.redlines.filter stays } := by
  refine ⟨filter_sublist, ?_, rfl⟩
  rw [filter_filter]
  apply filter_congr
  intro redline member
  cases holds : protect redline with
  | true => rw [safe redline member holds, Bool.and_self]
  | false => rw [Bool.false_and]

end Keeps

theorem compareRegionStarts_eq_one (first second : Span) :
    first.compareRegionStarts second = 1 ↔ first.start < second.start := by
  rw [Span.compareRegionStarts]
  split
  · next before => simp [before]
  · rename_i notBefore
    split <;> simp [notBefore]

theorem compareRegionEnds_eq_neg_one (first second : Span) :
    first.compareRegionEnds second = -1 ↔ second.stop < first.stop := by
  rw [Span.compareRegionEnds]
  split
  · rename_i before
    omega
  · rename_i notBefore
    split
    · next same => simp [same]
    · rename_i different
      omega

theorem spanContainsPoint_iff (span point : Span) : spanContainsPoint span point = true ↔
      span.start ≤ point.start ∧ point.stop ≤ span.stop := by
  rw [spanContainsPoint]
  simp only [compareRegionStarts_eq_one, compareRegionEnds_eq_neg_one]
  split
  · rename_i before
    simp only [Bool.false_eq_true, false_iff]
    omega
  · split
    · simp only [Bool.false_eq_true, false_iff]
      omega
    · simp only [true_iff]
      omega

theorem spansOverlap_iff (span range : Span) :
    spansOverlap span range = true ↔ range.Touches span := by
  have spanOrdered := span.ordered
  have rangeOrdered := range.ordered
  simp only [spansOverlap, Bool.or_eq_true, spanContainsPoint_iff,
    Span.atStart, Span.atEnd, Span.Touches]
  omega

variable [DecidableEq τ]

theorem overlapItem_classified (careful : consider none = true) {seen : ℕ} {redline : Redline τ}
    (classified : (overlapItem faults text span consider seen isUnsafe redline).2 = .classified)
    (toProtect : consider (some redline.comment) = true) :
    ¬ redline.InReach text span := by
  have considered : consider (if faults.comment seen then none
      else some redline.comment) = true := by
    split
    · exact careful
    · exact toProtect
  rw [overlapItem] at classified
  simp only [considered, Bool.not_true, Bool.false_eq_true, if_false] at classified
  split_ifs at classified
  · rename_i elsewhere
    intro inReach
    simp [inReach.1] at elsewhere
  · rename_i apart
    intro inReach
    exact apart ((spansOverlap_iff span redline.span).mpr inReach.2)

theorem classifies_overlap (careful : consider none = true) {start : ℕ}
    (classifies : Classifies (overlapItem faults text span consider) start redlines isUnsafe) :
    ∀ redline ∈ redlines, consider (some redline.comment) = true → ¬ redline.InReach text span := by
  induction redlines generalizing start isUnsafe with
  | nil => exact fun redline member => nomatch member
  | cons head rest ih =>
    obtain ⟨first, later⟩ := classifies
    intro redline member toProtect
    rcases mem_cons.mp member with rfl | behind
    · exact overlapItem_classified careful first toProtect
    · exact ih later redline behind toProtect

/-- **Guards.** A span that a guard lets pass reaches no redline to protect. -/
theorem spanHasRedline_sound (careful : consider none = true)
    (clear : spanHasRedline faults document text span consider = false) :
    ∀ redline ∈ document.redlines, consider (some redline.comment) = true →
      ¬ redline.InReach text span := by
  obtain ⟨-, reliable⟩ := Bool.or_eq_false_iff.mp clear
  apply classifies_overlap careful
  exact (scanRedlines_reliable (Bool.not_eq_false' _ ▸ reliable)).1

theorem dispatchResolve_keeps {protect : Redline τ → Bool}
    (dispatch : Dispatch τ) (document : ReviewDocument τ)
    (safe : ∀ redline ∈ document.redlines, protect redline = true → ¬ redline.InReach text span) :
    Keeps protect document (dispatchResolve dispatch document text span) := by
  apply keeps_filter
  intro redline member holds
  simp [safe redline member holds]

/-- The user's redlines and, on demand, those of every other change. -/
def untouchable (token : Text) (refuseSiblingAgent : Bool) (redline : Redline τ) : Bool :=
  !isAgentToken redline.comment || (refuseSiblingAgent && redline.comment != token)

theorem guards_sound {foreignFaults otherFaults : ScanFaults}
    (noForeign : ¬ foreignRedlineInSpan foreignFaults document text span = true)
    (noOther : ¬ (refuseSiblingAgent && otherAgentRedlineInSpan otherFaults
      document text span token) = true) :
    ∀ redline ∈ document.redlines, untouchable token refuseSiblingAgent redline = true →
        ¬ redline.InReach text span := by
  intro redline member holds
  cases agent : isAgentToken redline.comment with
  | false =>
    apply spanHasRedline_sound rfl (Bool.not_eq_true _ ▸ noForeign) redline member
    simp [considerForeign, agent]
  | true =>
    simp only [untouchable, agent, Bool.not_true, Bool.false_or, Bool.and_eq_true] at holds
    obtain ⟨refuses, other⟩ := holds
    rw [refuses, Bool.not_eq_true] at noOther
    apply spanHasRedline_sound rfl noOther redline member
    simp only [considerOtherAgent, agent, Bool.true_and, other]

/-- What a step of `resolve_agent_change` may do to the document. -/
structure Resolution.Safe (resolution : Resolution τ) (document : ReviewDocument τ) (token : Text)
    (refuseSiblingAgent : Bool) : Prop where
  keeps : Keeps (untouchable token refuseSiblingAgent) document resolution.document
  unchanged : resolution.dispatched = false → resolution.document = document
  gone : resolution.answer = some true →
    ∀ redline ∈ resolution.document.redlines, redline.comment ≠ token

omit [DecidableEq τ] in
theorem Resolution.Safe.andThen {first : Resolution τ} {goOn : ReviewDocument τ → Resolution τ}
    (firstSafe : first.Safe document token refuseSiblingAgent)
    (laterSafe : (goOn first.document).Safe first.document token refuseSiblingAgent) :
    (first.andThen goOn).Safe document token refuseSiblingAgent := by
  rw [Resolution.andThen]
  split
  · exact firstSafe
  · refine ⟨firstSafe.keeps.trans laterSafe.keeps, ?_, laterSafe.gone⟩
    intro idle
    obtain ⟨firstIdle, laterIdle⟩ := Bool.or_eq_false_iff.mp idle
    exact (laterSafe.unchanged laterIdle).trans (firstSafe.unchanged firstIdle)

section Resolve

variable {faults : ResolveFaults τ} {before : RedlineSnapshot}
  {document : ReviewDocument τ} {text : τ} {span : Span} {token : Text}
  {refuseSiblingAgent : Bool}

omit [DecidableEq τ] in
theorem Resolution.Safe.idle {answer : Option Bool} (notTrue : answer ≠ some true) :
    (⟨answer, document, false⟩ : Resolution τ).Safe document token
      refuseSiblingAgent :=
  ⟨.refl document, fun _ => rfl, fun isTrue => absurd isTrue notTrue⟩

theorem resolveExact_safe (agent : isAgentToken token) :
    (resolveExact faults before document text span token
      refuseSiblingAgent).Safe document token refuseSiblingAgent := by
  rw [resolveExact]
  dsimp only
  split_ifs with _ noForeign noOther _ _ exactly
  any_goals exact .idle nofun
  all_goals
    have keeps := dispatchResolve_keeps faults.exactDispatch document
      (guards_sound noForeign noOther)
  · exact ⟨keeps, nofun, nofun⟩
  · refine ⟨keeps, nofun, fun _ => ?_⟩
    simp only [Bool.and_eq_true, decide_eq_true_eq] at exactly
    obtain ⟨⟨removed, -, reliable⟩, -⟩ := exactly
    apply gone_of_snapshot agent reliable
    have wasRemoved := removed ▸ Finset.mem_singleton_self token
    exact (Finset.mem_sdiff.mp wasRemoved).2
  · exact ⟨keeps, nofun, nofun⟩
  · exact ⟨keeps, nofun, nofun⟩

theorem resolveParagraph_safe (agent : isAgentToken token) :
    (resolveParagraph faults before document text span token
      refuseSiblingAgent).Safe document token refuseSiblingAgent := by
  rw [resolveParagraph]
  dsimp only
  split_ifs with _ noForeign noOther _ _ reliable
  any_goals exact .idle nofun
  all_goals
    have keeps := dispatchResolve_keeps faults.paragraphDispatch document
      (guards_sound noForeign noOther)
  · exact ⟨keeps, nofun, nofun⟩
  · exact ⟨keeps, nofun, nofun⟩
  · exact ⟨keeps, nofun, nofun⟩
  · refine ⟨keeps, nofun, fun isTrue => ?_⟩
    apply gone_of_snapshot agent
    · simpa using reliable
    · simpa using isTrue

theorem resolveParagraph_answers : (resolveParagraph faults before document text span token
      refuseSiblingAgent).answer ≠ none := by
  rw [resolveParagraph]
  dsimp only
  split_ifs <;> simp

end Resolve

theorem resolveAgentChange_answers (faults : ResolveFaults τ) (document : ReviewDocument τ)
    (token : Text) (refuseSiblingAgent preferExact : Bool) :
    (resolveAgentChange faults document token refuseSiblingAgent preferExact).answer ≠ none := by
  rw [resolveAgentChange]
  split
  · nofun
  · split
    · nofun
    · split
      · nofun
      · split
        · nofun
        · rw [Resolution.andThen]
          split
          · next answer => simp [answer]
          · exact resolveParagraph_answers

theorem resolveAgentChange_safe (faults : ResolveFaults τ) (document : ReviewDocument τ)
    (token : Text) (refuseSiblingAgent preferExact : Bool) :
    (resolveAgentChange faults document token refuseSiblingAgent
      preferExact).Safe document token refuseSiblingAgent := by
  rw [resolveAgentChange]
  split
  · exact .idle nofun
  · rename_i known
    split
    · exact .idle nofun
    · rename_i reliable
      have agent : isAgentToken token = true := by
        have tokensReliable : (takeSnapshot faults.before document).tokensReliable =
              true := by
          simp only [Bool.or_eq_true, not_or, Bool.not_eq_true', Bool.not_eq_false] at reliable
          exact reliable.1
        rw [takeSnapshot_of_tokensReliable tokensReliable] at known
        exact (ReviewDocument.mem_agentTokens.mp (not_not.mp known)).1
      split
      · exact .idle nofun
      · rename_i text bounds isBounds
        split
        · exact .idle nofun
        · apply Resolution.Safe.andThen
          · cases preferExact with
            | true => exact resolveExact_safe agent
            | false => exact .idle nofun
          · exact resolveParagraph_safe agent

/-- **Resolving one change.** However scans, reads and dispatches fail, no
redline of the user is resolved and, on demand, none of another change; `True`
means that the change is gone, and before the dispatch nothing changes. -/
theorem resolveAgentChange_sound (faults : ResolveFaults τ) (document : ReviewDocument τ)
    (token : Text) (refuseSiblingAgent preferExact : Bool) :
    let resolution := resolveAgentChange faults document token refuseSiblingAgent preferExact
    (∃ answer, resolution.answer = some answer) ∧
      Keeps (fun redline => !isAgentToken redline.comment) document resolution.document ∧
      (refuseSiblingAgent = true → Keeps (fun redline => redline.comment != token) document
          resolution.document) ∧
      (resolution.answer = some true →
        ∀ redline ∈ resolution.document.redlines, redline.comment ≠ token) ∧
      (resolution.dispatched = false → resolution.document = document) := by
  intro resolution
  have safe := resolveAgentChange_safe faults document token refuseSiblingAgent preferExact
  refine ⟨?_, ?_, ?_, safe.gone, safe.unchanged⟩
  · exact Option.ne_none_iff_exists'.mp
      (resolveAgentChange_answers faults document token refuseSiblingAgent preferExact)
  · apply safe.keeps.mono
    intro redline foreign
    simp only [untouchable, foreign, Bool.true_or]
  · intro refuses
    apply safe.keeps.mono
    intro redline other
    simp only [untouchable, refuses, other, Bool.and_self, Bool.or_true]

end WriterAgent.Writer
