import WriterAgent.Writer.Review.CleanAttempts

/-!
# Resolving all changes

Each pass of the loop takes one pending change out of consideration: it is gone,
or it is skipped from then on.
-/

namespace WriterAgent.Writer

open PyText

variable {τ : Type}

theorem countResolved_eq {before after : Finset Text} (fewer : after ⊆ before) :
    countResolved before after = (before \ after).card := by
  have sizes := Finset.card_sdiff_add_card_eq_card fewer
  rw [countResolved]
  omega

/-- What holds of every outcome of `resolve_all_agent_changes`. -/
structure TruthfulResult (document : ReviewDocument τ) (result : ℤ)
    (final : ReviewDocument τ) : Prop where
  keeps : Keeps foreignRedline document final
  unchanged : result = -1 → final = document
  counted : 0 ≤ result → result = ((document.agentTokens \ final.agentTokens).card : ℤ)

variable {document final : ReviewDocument τ} {attempted : Bool}

theorem allRedlinesAreAgent_sound {countRaises : Bool} {faults : ScanFaults}
    (allAgent : allRedlinesAreAgent countRaises faults document = true) :
    ∀ redline ∈ document.redlines, foreignRedline redline = false := by
  rw [allRedlinesAreAgent] at allAgent
  split_ifs at allAgent
  simp only [Bool.and_eq_true, beq_iff_eq, Finset.card_eq_zero] at allAgent
  obtain ⟨reliable, none⟩ := allAgent
  rw [takeSnapshot_of_foreignReliable reliable] at none
  have noForeign : document.foreignIds = ∅ := none
  intro redline member
  rw [← Bool.not_eq_true]
  intro foreign
  have there : redline.identifier ∈ document.foreignIds := by
    simp only [ReviewDocument.foreignIds, List.mem_toFinset, List.mem_map]
    exact ⟨redline, List.mem_filter.mpr ⟨member, foreign⟩, rfl⟩
  rw [noForeign] at there
  exact absurd there (Finset.notMem_empty _)

theorem dispatchResolveAll_keeps (dispatch : Dispatch τ)
    (allAgent : ∀ redline ∈ document.redlines, foreignRedline redline = false) :
    Keeps foreignRedline document (dispatchResolveAll dispatch document) := by
  apply keeps_filter
  intro redline member foreign
  rw [allAgent redline member] at foreign
  cases foreign

theorem TruthfulResult.counting (keeps : Keeps foreignRedline document final) :
    TruthfulResult document (countResolved document.agentTokens final.agentTokens) final where
  keeps := keeps
  unchanged isNegative := by
    rw [countResolved_eq (agentTokens_subset keeps.fewer)] at isNegative
    omega
  counted _ := countResolved_eq (agentTokens_subset keeps.fewer)

theorem TruthfulResult.unconfirmed (keeps : Keeps foreignRedline document final) :
    TruthfulResult document resolveAllUnconfirmed final where
  keeps := keeps
  unchanged := nofun
  counted := nofun

theorem TruthfulResult.unreliable (document : ReviewDocument τ) :
    TruthfulResult document resolveAllUnreliable document where
  keeps := .refl document
  unchanged _ := rfl
  counted := nofun

/-- What the loop has done when it ends with a result or falls through. -/
structure PassesSound (start : ReviewDocument τ) (dispatched : Bool)
    (result : Option ℤ) (final : ReviewDocument τ) (attempted : Bool) :
    Prop where
  keeps : Keeps foreignRedline start final
  negative : ∀ value, result = some value → value < 0
  unreliable : result = some (-1) → dispatched = false ∧ final = start
  idle : attempted = false → dispatched = false ∧ final = start

theorem PassesSound.after {next : ReviewDocument τ} {result : Option ℤ}
    {dispatched : Bool} (later : PassesSound next true result final attempted)
    (keeps : Keeps foreignRedline document next) :
    PassesSound document dispatched result final attempted where
  keeps := keeps.trans later.keeps
  negative := later.negative
  unreliable isUnreliable := nomatch (later.unreliable isUnreliable).1
  idle isIdle := nomatch (later.idle isIdle).1

variable [DecidableEq τ]

section Loop

variable {pass : ℕ → PassFaults τ} {fuel number : ℕ}
  {document original : ReviewDocument τ} {skip : Finset Text}
  {dispatched : Bool}

/-- **One pass.** The snapshot is unreliable, nothing is pending, or an attempt
runs on a pending change, which is then gone or skipped. -/
theorem resolvePasses_succ (pass : ℕ → PassFaults τ) (fuel number : ℕ)
    (document : ReviewDocument τ) (skip : Finset Text) (dispatched : Bool) :
    ((takeSnapshot (pass number).current document).tokensReliable = false ∧
      resolvePasses pass (fuel + 1) number document skip dispatched =
        some (some (if dispatched then resolveAllUnconfirmed
          else resolveAllUnreliable), document, dispatched)) ∨
    (document.agentTokens ⊆ skip ∧ resolvePasses pass (fuel + 1) number document skip dispatched =
        some (none, document, dispatched)) ∨
    ∃ token ∈ document.agentTokens, token ∉ skip ∧
      ∃ resolution, resolution = resolveAgentChange (pass number).resolve
          document token false false ∧
        (((takeSnapshot (pass number).after resolution.document).tokensReliable = false ∧
          resolvePasses pass (fuel + 1) number document skip dispatched =
            some (some resolveAllUnconfirmed, resolution.document, true)) ∨
        ((resolution.answer ≠ some true ∨ document.agentTokens.card ≤
            resolution.document.agentTokens.card) ∧
          resolvePasses pass (fuel + 1) number document skip dispatched =
            resolvePasses pass fuel (number + 1) resolution.document (insert token skip) true) ∨
        (resolution.answer = some true ∧
          resolvePasses pass (fuel + 1) number document skip dispatched =
            resolvePasses pass fuel (number + 1) resolution.document skip true)) := by
  cases reliable : (takeSnapshot (pass number).current document).tokensReliable with
  | false =>
    left
    rw [resolvePasses]
    simp only [reliable, Bool.not_false, if_true, and_self]
  | true =>
    right
    have isCurrent := takeSnapshot_of_tokensReliable reliable
    by_cases nonempty : (document.agentTokens \ skip).Nonempty
    · right
      have least := Finset.min'_mem _ nonempty
      obtain ⟨pending, notSkipped⟩ := Finset.mem_sdiff.mp least
      refine ⟨_, pending, notSkipped, _, rfl, ?_⟩
      rw [resolvePasses]
      simp only [isCurrent, Bool.not_true, Bool.false_eq_true, if_false, dif_pos nonempty]
      generalize resolveAgentChange (pass number).resolve document
        ((document.agentTokens \ skip).min' nonempty) false false = resolution
      cases afterReliable : (takeSnapshot (pass number).after
          resolution.document).tokensReliable with
      | false => simp
      | true =>
        right
        rw [takeSnapshot_of_tokensReliable afterReliable]
        simp only [Bool.not_true, Bool.false_eq_true, if_false]
        split
        · rename_i stuck
          left
          simp only [Bool.or_eq_true, bne_iff_ne, ne_eq,
            decide_eq_true_eq] at stuck
          exact ⟨stuck, rfl⟩
        · rename_i moved
          right
          simp only [Bool.or_eq_true, bne_iff_ne, ne_eq,
            decide_eq_true_eq, not_or, not_not] at moved
          exact ⟨moved.1, rfl⟩
    · left
      rw [resolvePasses]
      simp only [isCurrent, Bool.not_true, Bool.false_eq_true, if_false, dif_neg nonempty, and_true]
      exact Finset.sdiff_eq_empty_iff_subset.mp (Finset.not_nonempty_iff_eq_empty.mp nonempty)

theorem pending_lt {before after token skip skipped} (fewer : after ⊆ before)
    (pending : token ∈ before) (notSkipped : token ∉ skip) (more : skip ⊆ skipped)
    (out : token ∉ after ∨ token ∈ skipped) :
    ((after : Finset Text) \ skipped).card < (before \ skip).card := by
  apply Finset.card_lt_card
  refine (Finset.ssubset_iff_of_subset ?_).mpr
    ⟨token, Finset.mem_sdiff.mpr ⟨pending, notSkipped⟩, ?_⟩
  · exact Finset.sdiff_subset_sdiff fewer more
  · rw [Finset.mem_sdiff, not_and_not_right]
    exact fun there => out.resolve_left (not_not.mpr there)

/-- **Termination.** As much fuel as there are pending changes is enough. -/
theorem resolvePasses_terminates (enough : (document.agentTokens \ skip).card < fuel) :
    ∃ outcome, resolvePasses pass fuel number document skip dispatched = some outcome := by
  induction fuel generalizing number document skip dispatched with
  | zero => cases enough
  | succ fuel ih =>
    rcases resolvePasses_succ pass fuel number document skip dispatched with
      ⟨-, unreliable⟩ | ⟨-, finished⟩ | ⟨token, pending, notSkipped, resolution, rfl, attempt⟩
    · exact ⟨_, unreliable⟩
    · exact ⟨_, finished⟩
    · have safe := resolveAgentChange_safe (pass number).resolve document token false false
      have fewer := agentTokens_subset safe.keeps.fewer
      rcases attempt with ⟨-, unconfirmed⟩ | ⟨-, skips⟩ | ⟨resolved, goesOn⟩
      · exact ⟨_, unconfirmed⟩
      · rw [skips]
        apply ih
        have less := pending_lt fewer pending notSkipped (Finset.subset_insert token skip)
          (.inr (Finset.mem_insert_self token skip))
        omega
      · rw [goesOn]
        apply ih
        have gone : token ∉ (resolveAgentChange (pass number).resolve document
            token false false).document.agentTokens := by
          intro there
          obtain ⟨-, redline, member, same⟩ :=
            ReviewDocument.mem_agentTokens.mp there
          exact safe.gone resolved redline member same
        have less := pending_lt fewer pending notSkipped (Finset.Subset.refl skip) (.inl gone)
        omega

theorem resolveAgentChange_keepsForeign (faults : ResolveFaults τ) (document : ReviewDocument τ)
    (token : Text) (refuseSiblingAgent preferExact : Bool) :
    Keeps foreignRedline document (resolveAgentChange faults document token
      refuseSiblingAgent preferExact).document := by
  apply (resolveAgentChange_safe faults document token refuseSiblingAgent preferExact).keeps.mono
  intro redline foreign
  rw [untouchable]
  rw [foreignRedline] at foreign
  rw [foreign, Bool.true_or]

theorem resolvePasses_sound {result : Option ℤ}
    (ends : resolvePasses pass fuel number document skip dispatched =
      some (result, final, attempted)) :
    PassesSound document dispatched result final attempted := by
  induction fuel generalizing number document skip dispatched with
  | zero => cases ends
  | succ fuel ih =>
    rcases resolvePasses_succ pass fuel number document skip dispatched with
      ⟨-, unreliable⟩ | ⟨-, finished⟩ | ⟨token, -, -, resolution, rfl, attempt⟩
    · cases unreliable.symm.trans ends
      cases attempted with
      | true =>
        refine ⟨.refl _, ?_, nofun, nofun⟩
        rintro _ ⟨⟩
        exact (by decide : resolveAllUnconfirmed < 0)
      | false =>
        refine ⟨.refl _, ?_, fun _ => ⟨rfl, rfl⟩, fun _ => ⟨rfl, rfl⟩⟩
        rintro _ ⟨⟩
        exact (by decide : resolveAllUnreliable < 0)
    · cases finished.symm.trans ends
      exact ⟨.refl _, nofun, nofun, fun idle => ⟨idle, rfl⟩⟩
    · have keeps := resolveAgentChange_keepsForeign (pass number).resolve
        document token false false
      rcases attempt with ⟨-, unconfirmed⟩ | ⟨-, skips⟩ | ⟨-, goesOn⟩
      · cases unconfirmed.symm.trans ends
        refine ⟨keeps, ?_, nofun, nofun⟩
        rintro _ ⟨⟩
        exact (by decide : resolveAllUnconfirmed < 0)
      · exact (ih (skips.symm.trans ends)).after keeps
      · exact (ih (goesOn.symm.trans ends)).after keeps

theorem resolvePasses_clean (clean : ∀ number, (pass number).Clean)
    (oneText : original.OneText) {result : Option ℤ}
    (keeps : Keeps foreignRedline original document)
    (skipped : ∀ token ∈ skip, token ∈ document.agentTokens → Blocked original token)
    (ends : resolvePasses pass fuel number document skip dispatched =
      some (result, final, attempted)) :
    result = none ∧ ∀ token ∈ final.agentTokens, Blocked original token := by
  induction fuel generalizing number document skip dispatched with
  | zero => cases ends
  | succ fuel ih =>
    rcases resolvePasses_succ pass fuel number document skip dispatched with
      ⟨unreliable, -⟩ | ⟨allSkipped, finished⟩ |
        ⟨token, pending, notSkipped, resolution, rfl, attempt⟩
    · rw [(clean number).current, takeSnapshot_none] at unreliable
      cases unreliable
    · cases finished.symm.trans ends
      exact ⟨rfl, fun token there => skipped token (allSkipped there) there⟩
    · have step := resolveAgentChange_keepsForeign (pass number).resolve
        document token false false
      have fewer := agentTokens_subset step.fewer
      have skippedStill : ∀ other ∈ skip,
          other ∈ (resolveAgentChange (pass number).resolve document token
            false false).document.agentTokens → Blocked original other :=
        fun other member there => skipped other member (fewer there)
      rcases attempt with ⟨unreliable, -⟩ | ⟨stuck, skips⟩ | ⟨-, goesOn⟩
      · rw [(clean number).after, takeSnapshot_none] at unreliable
        cases unreliable
      · apply ih (keeps.trans step) _ (skips.symm.trans ends)
        intro other member there
        rcases Finset.mem_insert.mp member with rfl | old
        · have documentOneText : document.OneText :=
            fun first firstIn second secondIn =>
              oneText first (keeps.fewer.subset firstIn) second (keeps.fewer.subset secondIn)
          rcases resolveAgentChange_clean (clean number).resolve
            documentOneText pending with blocked | resolved
          · exact blocked.mono oneText keeps pending
          · -- A resolved change is not there, whatever is skipped.
            have safe := resolveAgentChange_safe (pass number).resolve
              document other false false
            obtain ⟨-, redline, inFinal, same⟩ :=
              ReviewDocument.mem_agentTokens.mp there
            exact absurd same (safe.gone resolved redline inFinal)
        · exact skippedStill other old there
      · exact ih (keeps.trans step) skippedStill (goesOn.symm.trans ends)

end Loop

section ResolveAll

variable {faults : ResolveAllFaults τ} {fuel : ℕ} {document final : ReviewDocument τ} {result : ℤ}

theorem resolveAllAgentChanges_truthful (ends : resolveAllAgentChanges faults fuel document =
      some (result, final)) : TruthfulResult document result final := by
  rw [resolveAllAgentChanges] at ends
  simp only at ends
  split at ends
  · cases ends
    exact .unreliable document
  · rename_i reliable
    have isBefore := takeSnapshot_of_tokensReliable
      (Bool.not_eq_false _ ▸ (Bool.not_eq_true' _ ▸ reliable))
    rw [isBefore] at ends
    split at ends
    · rename_i nothing
      cases ends
      refine ⟨.refl document, nofun, fun _ => ?_⟩
      rw [Finset.sdiff_self]
      rfl
    · split at ends
      · rename_i allAgent
        have keeps := dispatchResolveAll_keeps faults.globalDispatch
          (allRedlinesAreAgent_sound allAgent)
        split at ends
        · cases ends
          exact .unconfirmed (.refl document)
        · split at ends
          · cases ends
            exact .unconfirmed keeps
          · split at ends
            · cases ends
              exact .unconfirmed keeps
            · rename_i afterReliable
              rw [takeSnapshot_of_tokensReliable (by
                simpa using afterReliable)] at ends
              cases ends
              exact .counting keeps
      · split at ends
        · cases ends
        · rename_i value resolved attempted passes
          cases ends
          have sound := resolvePasses_sound passes
          refine ⟨sound.keeps, ?_, ?_⟩
          · rintro rfl
            exact (sound.unreliable rfl).2
          · intro isCount
            have negative := sound.negative _ rfl
            omega
        · rename_i resolved attempted passes
          have sound := resolvePasses_sound passes
          split at ends
          · cases attempted with
            | true =>
              cases ends
              exact .unconfirmed sound.keeps
            | false =>
              cases ends
              rw [(sound.idle rfl).2]
              exact .unreliable document
          · rename_i finalReliable
            rw [takeSnapshot_of_tokensReliable (by
              simpa using finalReliable)] at ends
            cases ends
            exact .counting sound.keeps

theorem resolveAllAgentChanges_terminates (enough : document.agentTokens.card < fuel) :
    ∃ outcome, resolveAllAgentChanges faults fuel document = some outcome := by
  rw [resolveAllAgentChanges]
  simp only
  split
  · exact ⟨_, rfl⟩
  · split
    · exact ⟨_, rfl⟩
    · split
      · split
        · exact ⟨_, rfl⟩
        · split
          · exact ⟨_, rfl⟩
          · split <;> exact ⟨_, rfl⟩
      · have ends : ∃ outcome, resolvePasses faults.pass fuel 0 document ∅ false = some outcome :=
          resolvePasses_terminates (by rwa [Finset.sdiff_empty])
        obtain ⟨⟨value, resolved, attempted⟩, passes⟩ := ends
        rw [passes]
        cases value with
        | some value => exact ⟨_, rfl⟩
        | none =>
          simp only
          split <;> exact ⟨_, rfl⟩

theorem resolveAllAgentChanges_clean (clean : faults.Clean) (oneText : document.OneText)
    (ends : resolveAllAgentChanges faults fuel document = some (result, final)) :
    ∀ token ∈ final.agentTokens, Blocked document token := by
  rw [resolveAllAgentChanges] at ends
  simp only [clean.before, takeSnapshot_none, Bool.not_true, Bool.false_eq_true, if_false] at ends
  split at ends
  · rename_i nothing
    cases ends
    rw [Finset.card_eq_zero.mp nothing]
    exact fun token there => absurd there (Finset.notMem_empty _)
  · split at ends
    · simp only [clean.dispatcher, clean.globalDispatch.quiet,
        clean.globalAfter, takeSnapshot_none, Bool.not_true,
        Bool.false_eq_true, if_false] at ends
      cases ends
      intro token there
      obtain ⟨-, redline, member, -⟩ := ReviewDocument.mem_agentTokens.mp there
      simp [dispatchResolveAll, clean.globalDispatch.resolves] at member
    · split at ends
      · cases ends
      · rename_i passes
        obtain ⟨impossible, -⟩ := resolvePasses_clean clean.pass oneText
          (.refl document) (fun token none => absurd none (Finset.notMem_empty _)) passes
        cases impossible
      · rename_i resolved attempted passes
        simp only [clean.final, takeSnapshot_none, Bool.not_true,
          Bool.false_eq_true, if_false] at ends
        cases ends
        exact (resolvePasses_clean clean.pass oneText (.refl document)
          (fun token none => absurd none (Finset.notMem_empty _)) passes).2

end ResolveAll

/-- **Resolve-all.** It ends, no redline of the user is ever resolved, -1 says
that nothing has changed and a count is that of the changes gone; and without
failures a redline of the user lies in the paragraphs that each change left
over has spanned. -/
theorem resolveAllAgentChanges_sound (faults : ResolveAllFaults τ) {fuel : ℕ}
    {document : ReviewDocument τ} (enough : document.agentTokens.card < fuel) :
    ∃ result final, resolveAllAgentChanges faults fuel document = some (result, final) ∧
        TruthfulResult document result final ∧
        (faults.Clean → document.OneText →
          ∀ token ∈ final.agentTokens, Blocked document token) := by
  have terminates : ∃ outcome, resolveAllAgentChanges faults fuel document = some outcome :=
    resolveAllAgentChanges_terminates enough
  obtain ⟨⟨result, final⟩, ends⟩ := terminates
  exact ⟨result, final, ends, resolveAllAgentChanges_truthful ends,
    fun clean oneText => resolveAllAgentChanges_clean clean oneText ends⟩

def ResolveFaults.nothing : ResolveFaults Unit where
  before := .none
  bounds := .none
  union := false
  view := false
  exactCursor := false
  exactForeign := .none
  exactOther := .none
  exactSelection := false
  exactDispatch := ⟨fun _ => true, false⟩
  exactAfter := .none
  paragraphCursor := false
  paragraphForeign := .none
  paragraphOther := .none
  paragraphSelection := false
  paragraphDispatch := ⟨fun _ => true, false⟩
  after := .none

def ResolveAllFaults.nothing : ResolveAllFaults Unit where
  before := .none
  count := false
  allAgent := .none
  dispatcher := false
  globalDispatch := ⟨fun _ => true, false⟩
  globalAfter := .none
  pass _ := ⟨.none, .nothing, .none⟩
  final := .none

theorem ResolveAllFaults.nothing_clean : ResolveAllFaults.nothing.Clean where
  before := rfl
  count := rfl
  allAgent := rfl
  dispatcher := rfl
  globalDispatch := ⟨fun _ => rfl, rfl⟩
  globalAfter := rfl
  pass _ := ⟨rfl, ⟨rfl, rfl, rfl, rfl, rfl, rfl, rfl, ⟨fun _ => rfl, rfl⟩, rfl⟩,
    rfl⟩
  final := rfl

def splitToken : Text := makeAgentToken ['s'] 0

/-- One change has marks in the first and in the third paragraph, another one
is in the third paragraph, and a redline of the user in the second. -/
def splitDocument : ReviewDocument Unit where
  redlines := [ ⟨0, splitToken, (), ⟨1, 2, by decide⟩⟩, ⟨1, [], (), ⟨5, 6, by decide⟩⟩,
    ⟨2, splitToken, (), ⟨8, 9, by decide⟩⟩,
    ⟨3, makeAgentToken ['s'] 1, (), ⟨10, 11, by decide⟩⟩]
  paragraphs _ := [3, 3, 3]

theorem resolveAllAgentChanges_sound_split : ∃ result final,
      resolveAllAgentChanges .nothing 3 splitDocument = some (result, final) ∧
        TruthfulResult splitDocument result final ∧
        (ResolveAllFaults.nothing.Clean → splitDocument.OneText →
          ∀ token ∈ final.agentTokens, Blocked splitDocument token) :=
  resolveAllAgentChanges_sound .nothing (by decide)

/-- The dispatch for the other change takes one mark of the skipped one, and
what is left of that shares its paragraph with nobody. -/
theorem not_blocked_afterwards :
    ¬ ∀ (faults : ResolveAllFaults Unit) fuel document result final, faults.Clean →
        resolveAllAgentChanges faults fuel document = some (result, final) →
          ∀ token ∈ final.agentTokens, Blocked final token := by
  intro blocked
  let left : ReviewDocument Unit :=
    { splitDocument with redlines := splitDocument.redlines.take 2 }
  have ends : resolveAllAgentChanges .nothing 3 splitDocument = some (1, left) := rfl
  obtain ⟨text, span, bounds, redline, member, foreign, reach⟩ :=
    blocked _ _ _ _ _ ResolveAllFaults.nothing_clean ends splitToken (by decide)
  have isBounds : changeBounds .none false left splitToken =
      some ((), ⟨1, 2, by decide⟩) := by decide
  cases bounds.symm.trans isBounds
  revert redline
  decide

end WriterAgent.Writer
