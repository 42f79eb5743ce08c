import WriterAgent.Foundations.Runs
import WriterAgent.Writer.Locale.GrammarProofreadCache

/-!
# Isolation of the checkers in the persisted cache

The rows of a document are keyed by fingerprint alone, so what keeps the
checkers apart is that a change of identity drops all of them.  The one change
that does not is the adoption of the rows of an unnamed LLM.
-/

namespace WriterAgent.Locale

open PyText List

structure OwnedRow where
  identity : Text
  fp : Text
  errors : List GrammarError
  deriving DecidableEq

inductive BlobOwner where
  | nobody
  | known (identity : Text)
  | someLlm
  deriving DecidableEq

def blobOwner (data : CacheBlob) : BlobOwner :=
  if 3 ≤ data.version then
    if data.model.isEmpty then .nobody else .known data.model
  else if data.version = 2 then
    match sniffV2CacheIdentity data with
    | some sniffed => if sniffed = v2LlmPending then .someLlm else .known sniffed
    | none => .nobody
  else .nobody

def BlobOwner.adopt (identity : Text) : BlobOwner → BlobOwner
  | .someLlm => if llmMark.isPrefixOf identity then .known identity else .someLlm
  | owner => owner

structure LoadedBlob where
  owner : BlobOwner
  rows : List (Text × List GrammarError)

/-- A document with the record of what was put under which identity, what was
loaded and what `DocumentPersistence.get` returned. -/
structure DocumentSession where
  persistence : Option DocumentPersistence
  puts : List OwnedRow
  loads : List LoadedBlob
  shown : List OwnedRow

variable {session later : DocumentSession} {p after : DocumentPersistence}
  {identity localeKey sentence fp : Text} {rules : SentenceRules}
  {row : Text × List GrammarError} {errors : List GrammarError}
  {settings : GrammarSettings} {data : CacheBlob} {l1 : SentenceCache}
  {checkerIdentity : Option Text}

namespace DocumentSession

def init : DocumentSession := ⟨none, [], [], []⟩

def instanceOf (session : DocumentSession) : DocumentPersistence :=
  getPersistence session.persistence none

def use (session : DocumentSession) (identity : Text) : DocumentSession :=
  { session with
    loads := session.loads.map fun load =>
      { load with owner := load.owner.adopt identity } }

/-- A row was put under the identity, or is from a blob of its. -/
def Legit (session : DocumentSession) (row : OwnedRow) : Prop :=
  row ∈ session.puts ∨ ∃ load ∈ session.loads,
    load.owner = .known row.identity ∧ (row.fp, row.errors) ∈ load.rows

/-- What happens to a document: a call comes with its model, a sentence is
looked up or stored while L1 is as it may be, the rows are cleared for a
recheck, or the document is unloaded. -/
inductive Action where
  | bind (settings : GrammarSettings) (raw : Option CacheBlob)
  | getSentence (l1 : SentenceCache) (settings : GrammarSettings)
      (localeKey sentence : Text) (checkerIdentity : Option Text)
  | putSentence (l1 : SentenceCache) (settings : GrammarSettings)
      (localeKey sentence : Text) (errors : List GrammarError)
      (checkerIdentity : Option Text)
  | clear
  | unload

def step (rules : SentenceRules) (session : DocumentSession) : Action → DocumentSession
  | .bind settings raw =>
    { session with
      persistence := some (getPersistence session.persistence (some (settings, raw)))
      loads := match session.instanceOf.hasModel, raw with
        | false, some data => session.loads ++ [⟨blobOwner data, blobRows data⟩]
        | _, _ => session.loads }
  | .getSentence l1 settings localeKey sentence checkerIdentity =>
    let ident := resolveCheckerIdentity settings checkerIdentity
    let caches := (cacheGetSentence rules ⟨l1, session.instanceOf⟩ localeKey sentence ident).1
    let fp := sentenceIdentityFp rules sentence
    -- an L1 hit is answered without a look at L2
    let seen := match memoryHit rules l1 localeKey sentence ident with
      | some _ => none
      | none => (session.instanceOf.ensureIdentity ident).1.get fp
    { session.use ident with
      persistence := some caches.l2
      shown := session.shown ++ (seen.map fun errors => ⟨ident, fp, errors⟩).toList }
  | .putSentence l1 settings localeKey sentence errors checkerIdentity =>
    let ident := resolveCheckerIdentity settings checkerIdentity
    match cachePutSentence rules ⟨l1, session.instanceOf⟩ localeKey sentence errors ident with
    | some (caches, fp, clipped) =>
      { session.use ident with
        persistence := some caches.l2
        puts := session.puts ++ [⟨ident, fp, clipped⟩] }
    | none => session
  | .clear =>
    { session with
      persistence := session.persistence.map DocumentPersistence.clear }
  | .unload => { session with persistence := none }

theorem adopt_of_known {owner : BlobOwner} {used : Text}
    (isKnown : owner = .known identity) : owner.adopt used = .known identity := by
  rw [isKnown]
  rfl

theorem legit_use {row : OwnedRow} (legit : session.Legit row) (used : Text) :
    (session.use used).Legit row := by
  rcases legit with isPut | ⟨load, isLoad, isKnown, inRows⟩
  · exact .inl isPut
  · refine .inr ⟨{ load with owner := load.owner.adopt used }, ?_, ?_, inRows⟩
    · exact mem_map.mpr ⟨load, isLoad, rfl⟩
    · exact adopt_of_known isKnown

theorem legit_of_more {row : OwnedRow} (legit : session.Legit row)
    (morePuts : ∀ row ∈ session.puts, row ∈ later.puts)
    (moreLoads : ∀ load ∈ session.loads, load ∈ later.loads) : later.Legit row := by
  rcases legit with isPut | ⟨load, isLoad, isKnown, inRows⟩
  · exact .inl (morePuts row isPut)
  · exact .inr ⟨load, moreLoads load isLoad, isKnown, inRows⟩

/-- The identity could be shown the entries as they are. -/
def Serves (p : DocumentPersistence) (identity : Text) : Prop :=
  (p.sessionIdentity = some identity ∧ (p.blobIdentity = none ∨ p.blobIdentity = some identity)) ∨
  (p.sessionIdentity = none ∧ p.blobIdentity = some identity)

/-- The entries of an instance are those of whom they can be shown to, or
wait for an LLM. -/
structure Owned (session : DocumentSession) (p : DocumentPersistence) : Prop where
  waiting : p.blobIdentity = some v2LlmPending → ∀ row ∈ p.entries.entries, ∃ load ∈ session.loads,
      load.owner = .someLlm ∧ row ∈ load.rows
  settled : p.blobIdentity ≠ some v2LlmPending → ∀ identity, Serves p identity →
      ∀ row ∈ p.entries.entries, session.Legit ⟨identity, row.1, row.2⟩
  fresh : p.sessionIdentity = none →
    DocumentPersistence.isFalsy p.blobIdentity = true → p.entries.entries = []
  unbound : p.hasModel = false → p.blobIdentity = p.sessionIdentity

theorem owned_empty (empty : p.entries.entries = [])
    (unbound : p.hasModel = false → p.blobIdentity = p.sessionIdentity) :
    Owned session p := by
  refine ⟨fun _ row member => ?_, fun _ identity _ row member => ?_, fun _ _ => empty, unbound⟩
  · rw [empty] at member
    cases member
  · rw [empty] at member
    cases member

/-- What becomes of an instance that an identity is bound to. -/
inductive Ensured (p : DocumentPersistence) (identity : Text) : DocumentPersistence → Prop where
  | adopted : p.blobIdentity = some v2LlmPending → llmMark.isPrefixOf identity = true →
      Ensured p identity { p with
        blobIdentity := some identity
        sessionIdentity := some identity }
  | kept : p.sessionIdentity = some identity → (p.blobIdentity = some v2LlmPending →
        llmMark.isPrefixOf identity = false) →
      Ensured p identity p
  | first : p.sessionIdentity = none → (p.blobIdentity = some v2LlmPending →
        llmMark.isPrefixOf identity = false) →
      p.blobIdentity = some v2LlmPending ∨ p.blobIdentity = some identity →
      Ensured p identity { p with sessionIdentity := some identity }
  | named : p.sessionIdentity = none → DocumentPersistence.isFalsy p.blobIdentity = true →
      Ensured p identity { p with
        blobIdentity := some identity
        sessionIdentity := some identity }
  | dropped : p.sessionIdentity ≠ some identity → Ensured p identity { p with
        entries := .empty
        blobIdentity := some identity
        sessionIdentity := some identity }

theorem ensured (p : DocumentPersistence) (identity : Text) :
    Ensured p identity (p.ensureIdentity identity).1 := by
  unfold DocumentPersistence.ensureIdentity
  split
  · rename_i adopts
    simp only [Bool.and_eq_true, decide_eq_true_eq] at adopts
    exact .adopted adopts.1 adopts.2
  · rename_i other
    have notAdopted : p.blobIdentity = some v2LlmPending → llmMark.isPrefixOf identity = false := by
      intro waiting
      apply Bool.eq_false_iff.mpr
      intro isLlm
      exact other (by rw [isLlm, decide_eq_true waiting]; rfl)
    cases session : p.sessionIdentity with
    | none =>
      simp only
      split_ifs
      · exact .dropped (by rw [session]; nofun)
      · next falsy => exact .named session falsy
      · rename_i notDropped truthy
        apply Ensured.first session notAdopted
        simp only [Bool.and_eq_true, Bool.not_eq_true', bne_iff_ne,
          ne_eq, not_and, Decidable.not_not] at notDropped
        by_cases waiting : p.blobIdentity = some v2LlmPending
        · exact .inl waiting
        · exact .inr (notDropped ⟨Bool.eq_false_iff.mpr truthy, waiting⟩)
    | some previous =>
      simp only
      split
      · rename_i same
        subst same
        exact .kept session notAdopted
      · rename_i different
        apply Ensured.dropped
        rw [session]
        exact fun same => different (Option.some.inj same)

theorem sessionIdentity_of_ensured (ensured : Ensured p identity after) :
    after.sessionIdentity = some identity := by
  cases ensured with
  | adopted | first | named | dropped => rfl
  | kept same notAdopted => exact same

theorem waiting_use (notLlm : llmMark.isPrefixOf identity = false)
    (waits : ∃ load ∈ session.loads, load.owner = .someLlm ∧ row ∈ load.rows) :
    ∃ load ∈ (session.use identity).loads, load.owner = .someLlm ∧ row ∈ load.rows := by
  obtain ⟨load, isLoad, isSome, inRows⟩ := waits
  refine ⟨_, mem_map.mpr ⟨load, isLoad, rfl⟩, ?_, inRows⟩
  simp [BlobOwner.adopt, isSome, notLlm]

theorem legit_of_waiting (isLlm : llmMark.isPrefixOf identity = true)
    (waits : ∃ load ∈ session.loads, load.owner = .someLlm ∧ row ∈ load.rows) :
    (session.use identity).Legit ⟨identity, row.1, row.2⟩ := by
  obtain ⟨load, isLoad, isSome, inRows⟩ := waits
  refine .inr ⟨_, mem_map.mpr ⟨load, isLoad, rfl⟩, ?_, inRows⟩
  simp [BlobOwner.adopt, isSome, isLlm]

theorem not_pending_of_llm (isLlm : llmMark.isPrefixOf identity = true) :
    identity ≠ v2LlmPending := by
  rintro rfl
  revert isLlm
  decide

theorem serves_of_session {other : Text} (session : p.sessionIdentity = some identity)
    (serves : Serves p other) : other = identity := by
  rcases serves with ⟨same, _⟩ | ⟨isNone, _⟩
  · rw [session] at same
    exact (Option.some.inj same).symm
  · rw [session] at isNone
    cases isNone

theorem owned_ensured (owned : Owned session p) (ensured : Ensured p identity after) :
    Owned (session.use identity) after := by
  cases ensured with
  | adopted waiting isLlm =>
    refine ⟨fun pending => ?_, fun _ other serves row member => ?_, nofun, fun _ => rfl⟩
    · exact absurd (Option.some.inj pending) (not_pending_of_llm isLlm)
    · cases serves_of_session rfl serves
      exact legit_of_waiting isLlm (owned.waiting waiting row member)
  | kept same notAdopted =>
    refine ⟨fun pending row member => ?_, fun settled other serves row member => ?_,
      owned.fresh, owned.unbound⟩
    · exact waiting_use (notAdopted pending) (owned.waiting pending row member)
    · exact legit_use (owned.settled settled other serves row member) identity
  | first isNone notAdopted whose =>
    refine ⟨fun pending row member => ?_, fun settled other serves row member => ?_,
      nofun, fun unbound => ?_⟩
    · exact waiting_use (notAdopted pending) (owned.waiting pending row member)
    · cases serves_of_session rfl serves
      have mine := whose.resolve_left settled
      exact legit_use (owned.settled settled identity (.inr ⟨isNone, mine⟩) row member) identity
    · have blob := owned.unbound unbound
      rw [isNone] at blob
      rcases whose with pending | mine
      · rw [pending] at blob
        cases blob
      · exact mine
  | named isNone falsy => exact owned_empty (owned.fresh isNone falsy) fun _ => rfl
  | dropped different => exact owned_empty rfl fun _ => rfl

theorem l2_alignPersistenceIdentity (caches : Caches) (ident : Text) :
    (alignPersistenceIdentity caches ident).l2 = (caches.l2.ensureIdentity ident).1 := by
  unfold alignPersistenceIdentity
  split
  · next p switched result => rw [result]
  · next p result => rw [result]

theorem l2_cacheGetSentence (rules : SentenceRules) (caches : Caches)
    (localeKey sentence ident : Text) :
    (cacheGetSentence rules caches localeKey sentence ident).1.l2 =
      (caches.l2.ensureIdentity ident).1 := by
  simp only [cacheGetSentence]
  split
  · exact l2_alignPersistenceIdentity _ ident
  · split
    · split
      · exact l2_alignPersistenceIdentity caches ident
      · exact l2_alignPersistenceIdentity caches ident
    · exact l2_alignPersistenceIdentity caches ident

theorem l2_cachePutSentence {caches after : Caches} {ident : Text}
    {clipped : List GrammarError}
    (stored : cachePutSentence rules caches localeKey sentence errors ident =
      some (after, fp, clipped)) :
    after.l2 = (caches.l2.ensureIdentity ident).1.put fp clipped := by
  simp only [cachePutSentence, Option.pure_def, Option.bind_eq_bind,
    Option.bind_eq_some_iff, Option.some.injEq, Prod.mk.injEq] at stored
  obtain ⟨⟨fp', l1, clipped'⟩, _, isAfter, rfl, rfl⟩ := stored
  rw [← isAfter]
  simp only [l2_alignPersistenceIdentity]

theorem legit_of_get (owned : Owned session p)
    (isSession : p.sessionIdentity = some identity) (shown : p.get fp = some errors) :
    session.Legit ⟨identity, fp, errors⟩ := by
  unfold DocumentPersistence.get at shown
  split_ifs at shown with _ notPending agrees
  have serves : Serves p identity := by
    refine .inl ⟨isSession, ?_⟩
    cases blob : p.blobIdentity with
    | none => exact .inl rfl
    | some other =>
      rw [isSession, blob] at agrees
      simp only [Option.isSome_some, Bool.true_and, bne_iff_ne,
        ne_eq, Decidable.not_not, Option.some.injEq] at agrees
      exact .inr (agrees ▸ rfl)
  exact owned.settled notPending identity serves (fp, errors) (PyDict.get?_eq_some_iff.mp shown)

theorem owned_put (fp : Text) (errors : List GrammarError) (owned : Owned session p)
    (isSession : p.sessionIdentity = some identity)
    (notPending : p.blobIdentity ≠ some v2LlmPending) :
    Owned { session with puts := session.puts ++ [⟨identity, fp, errors⟩] } (p.put fp errors) := by
  unfold DocumentPersistence.put
  split
  · refine ⟨fun pending => absurd pending notPending,
      fun settled other serves row member => ?_, owned.fresh, owned.unbound⟩
    exact legit_of_more (owned.settled settled other serves row member)
      (fun _ old => mem_append_left _ old) fun _ old => old
  · refine ⟨fun pending => absurd pending notPending,
      fun settled other serves row member => ?_, fun isNone => ?_,
      owned.unbound⟩
    · cases serves_of_session isSession serves
      rcases PyDict.mem_of_mem_set member with rfl | old
      · exact .inl (mem_append_right _ mem_cons_self)
      · exact legit_of_more (owned.settled settled identity serves row old)
          (fun _ old => mem_append_left _ old) fun _ old => old
    · rw [show p.sessionIdentity = none from isNone] at isSession
      cases isSession

/-- The entries of the document are kept for the first LLM. -/
def AwaitsLlm (p : DocumentPersistence) (identity : Text) : Prop :=
  identity = v2LlmPending ∨ (p.blobIdentity = some v2LlmPending ∧
      llmMark.isPrefixOf identity = false ∧
      (p.sessionIdentity = none ∨ p.sessionIdentity = some identity))

theorem not_pending_of_ensured (notAwaited : ¬AwaitsLlm p identity)
    (ensured : Ensured p identity after) :
    after.blobIdentity ≠ some v2LlmPending := by
  have notMarker : some identity ≠ some v2LlmPending :=
    fun same => notAwaited (.inl (Option.some.inj same))
  cases ensured with
  | adopted | named | dropped => exact notMarker
  | kept same notAdopted =>
    intro pending
    exact notAwaited (.inr ⟨pending, notAdopted pending, .inr same⟩)
  | first isNone notAdopted whose =>
    intro pending
    exact notAwaited (.inr ⟨pending, notAdopted pending, .inl isNone⟩)

theorem grammarCheckerIdentity_ne (settings : GrammarSettings) :
    grammarCheckerIdentity settings ≠ v2LlmPending ∧ grammarCheckerIdentity settings ≠ [] := by
  unfold grammarCheckerIdentity
  split
  · rename_i isLocal
    constructor
    · intro same
      rw [same] at isLocal
      revert isLocal
      decide
    · intro same
      rw [same] at isLocal
      revert isLocal
      decide
  · split
    · decide
    · split
      · rename_i model available
        constructor
        · intro same
          have lengths := congrArg List.length same
          simp [llmMark, v2LlmPending] at lengths
        · exact nofun
      · decide

inductive Loaded (p : DocumentPersistence) (data : CacheBlob) : DocumentPersistence → Prop where
  | ignored : Loaded p data p
  | emptied (blobIdentity : Option Text) : Loaded p data { p with
        blobIdentity := blobIdentity
        entries := .empty }
  | filled {identity : Text} : blobOwner data = .known identity →
      identity ≠ v2LlmPending → identity ≠ [] →
      Loaded p data ({ p with blobIdentity := some identity }.fillEntriesFromPayload data)
  | unnamed : blobOwner data = .someLlm → Loaded p data
        ({ p with blobIdentity := some v2LlmPending }.fillEntriesFromPayload data)

theorem loaded_takeBlob {p : DocumentPersistence} {data : CacheBlob} {settings : GrammarSettings}
    {identity : Text} {loadEntries : Bool} (isKnown : blobOwner data = .known identity)
    (onlyCurrent : loadEntries = true → identity = grammarCheckerIdentity settings) :
    Loaded p data (p.takeBlob (some identity) loadEntries data) := by
  cases loadEntries with
  | false => exact .emptied (some identity)
  | true =>
    obtain ⟨notPending, notEmpty⟩ := grammarCheckerIdentity_ne settings
    rw [← onlyCurrent rfl] at notPending notEmpty
    exact .filled isKnown notPending notEmpty

theorem loaded (p : DocumentPersistence) (settings : GrammarSettings) (data : CacheBlob) :
    Loaded p data (p.loadFromUdprops settings (some data)) := by
  simp only [DocumentPersistence.loadFromUdprops]
  by_cases isV3 : 3 ≤ data.version
  · rw [if_pos isV3]
    by_cases noModel : data.model.isEmpty = true
    · rw [if_pos noModel]
      exact .emptied none
    · rw [if_neg noModel]
      apply @loaded_takeBlob p data settings
      · simp [blobOwner, isV3, noModel]
      · intro fills
        exact Option.some.inj (beq_iff_eq.mp fills)
  · rw [if_neg isV3]
    by_cases isV2 : data.version = 2
    · rw [if_pos isV2]
      split
      · rename_i sniffed isSniffed
        split
        · rename_i isLlm
          apply Loaded.unnamed
          simp [blobOwner, isV2, isSniffed, isLlm]
        · rename_i notLlm
          apply @loaded_takeBlob p data settings
          · simp [blobOwner, isV2, isSniffed, notLlm]
          · exact fun fills => beq_iff_eq.mp fills
      · exact .emptied none
    · rw [if_neg isV2]
      exact .ignored

theorem mem_fillEntries (member : row ∈ (p.fillEntriesFromPayload data).entries.entries) :
    row ∈ blobRows data ∨ row ∈ p.entries.entries :=
  PyDict.mem_of_mem_foldl_set member

theorem owned_loaded (owned : Owned session p) (unbound : p.hasModel = false)
    (alone : blobOwner data = .someLlm → p.entries.entries = [])
    (loaded : Loaded { p with hasModel := true } data after) :
    Owned { session with
      loads := session.loads ++ [⟨blobOwner data, blobRows data⟩] } after := by
  have isNew : (⟨blobOwner data, blobRows data⟩ : LoadedBlob) ∈
      session.loads ++ [⟨blobOwner data, blobRows data⟩] :=
    mem_append_right _ mem_cons_self
  have blob := owned.unbound unbound
  cases loaded with
  | ignored =>
    refine ⟨fun pending row member => ?_,
      fun settled other serves row member => ?_, owned.fresh, nofun⟩
    · obtain ⟨load, isLoad, facts⟩ := owned.waiting pending row member
      exact ⟨load, mem_append_left _ isLoad, facts⟩
    · exact legit_of_more (owned.settled settled other serves row member)
        (fun _ old => old) fun _ old => mem_append_left _ old
  | emptied blobIdentity => exact owned_empty rfl nofun
  | @filled identity isKnown notPending notEmpty =>
    refine ⟨fun pending => absurd (Option.some.inj pending) notPending,
      fun _ other serves row member => ?_, fun _ falsy => ?_, nofun⟩
    · have isMine : other = identity := by
        rcases serves with ⟨_, isNone | same⟩ | ⟨_, same⟩
        · cases isNone
        · exact (Option.some.inj same).symm
        · exact (Option.some.inj same).symm
      subst isMine
      rcases mem_fillEntries member with new | old
      · exact .inr ⟨_, isNew, isKnown, new⟩
      · have servedBefore : p.sessionIdentity = some other := by
          rcases serves with ⟨mine, _⟩ | ⟨isNone, _⟩
          · exact mine
          · rw [show p.sessionIdentity = none from isNone] at blob
            have none := owned.fresh isNone (by rw [blob]; rfl)
            rw [show p.entries.entries = [] from none] at old
            cases old
        rw [servedBefore] at blob
        refine legit_of_more (owned.settled ?_ other
          (.inl ⟨servedBefore, .inr blob⟩) row old) (fun _ old => old)
          fun _ old => mem_append_left _ old
        rw [blob]
        exact fun same => notPending (Option.some.inj same)
    · exact absurd (isEmpty_iff.mp falsy) notEmpty
  | unnamed isUnnamed =>
    refine ⟨fun _ row member => ?_, fun settled => absurd rfl settled,
      nofun, nofun⟩
    rcases mem_fillEntries member with new | old
    · exact ⟨_, isNew, isUnnamed, new⟩
    · rw [show p.entries.entries = [] from alone isUnnamed] at old
      cases old

structure Isolated (session : DocumentSession) : Prop where
  owned : Owned session session.instanceOf
  legit : ∀ row ∈ session.shown, session.Legit row

theorem isolated_init : Isolated init where
  owned := owned_empty rfl fun _ => rfl
  legit := fun _ isShown => (not_mem_nil isShown).elim

/-- Nothing is put beside rows that are kept for the first LLM, and such rows
are not loaded beside others. -/
def Allowed (session : DocumentSession) : Action → Prop
  | .bind _ raw => ∀ data ∈ raw, blobOwner data = .someLlm → session.instanceOf.entries.entries = []
  | .putSentence _ settings _ _ _ checkerIdentity =>
    ¬AwaitsLlm session.instanceOf (resolveCheckerIdentity settings checkerIdentity)
  | _ => True

theorem owned_congr (owned : Owned session p) (samePuts : later.puts = session.puts)
    (sameLoads : later.loads = session.loads) : Owned later p := by
  refine ⟨?_, fun settled other serves row member => ?_, owned.fresh, owned.unbound⟩
  · rw [sameLoads]
    exact owned.waiting
  · refine legit_of_more (owned.settled settled other serves row member) ?_ ?_
    · rw [samePuts]
      exact fun _ old => old
    · rw [sameLoads]
      exact fun _ old => old

theorem owned_of_moreLoads (owned : Owned session p) (load : LoadedBlob) :
    Owned { session with loads := session.loads ++ [load] } p := by
  refine ⟨fun pending row member => ?_,
    fun settled other serves row member => ?_, owned.fresh, owned.unbound⟩
  · obtain ⟨old, isOld, facts⟩ := owned.waiting pending row member
    exact ⟨old, mem_append_left _ isOld, facts⟩
  · exact legit_of_more (owned.settled settled other serves row member)
      (fun _ old => old) fun _ old => mem_append_left _ old

theorem step_bind (rules : SentenceRules) (session : DocumentSession)
    (settings : GrammarSettings) (raw : Option CacheBlob) :
    step rules session (.bind settings raw) = { session with
        persistence := some (session.instanceOf.bindModel settings raw)
        loads := match session.instanceOf.hasModel, raw with
          | false, some data => session.loads ++ [⟨blobOwner data, blobRows data⟩]
          | _, _ => session.loads } := rfl

section

variable (isolated : Isolated session)

include isolated

theorem isolated_bind {raw : Option CacheBlob} (allowed : Allowed session (.bind settings raw)) :
    Isolated (step rules session (.bind settings raw)) := by
  obtain ⟨owned, legit⟩ := isolated
  rw [step_bind]
  unfold DocumentPersistence.bindModel
  cases bound : session.instanceOf.hasModel with
  | true =>
    rw [if_pos (Bool.or_true _)]
    exact ⟨owned_congr owned rfl rfl, fun row isShown =>
      legit_of_more (legit row isShown) (fun _ old => old) fun _ old => old⟩
  | false =>
    cases raw with
    | none =>
      refine ⟨?_, fun row isShown => legit_of_more (legit row isShown)
        (fun _ old => old) fun _ old => old⟩
      split
      · exact owned_congr owned rfl rfl
      · have bare : Owned session
            { session.instanceOf with hasModel := true } :=
          ⟨owned.waiting, owned.settled, owned.fresh, nofun⟩
        exact owned_congr bare rfl rfl
    | some data =>
      refine ⟨?_, fun row isShown => legit_of_more (legit row isShown)
        (fun _ old => old) fun _ old => mem_append_left _ old⟩
      split
      · exact owned_congr (owned_of_moreLoads owned _) rfl rfl
      · exact owned_congr (owned_loaded owned bound (allowed data rfl)
          (loaded _ settings data)) rfl rfl

theorem isolated_getSentence : Isolated (step rules session
      (.getSentence l1 settings localeKey sentence checkerIdentity)) := by
  obtain ⟨owned, legit⟩ := isolated
  have after := ensured session.instanceOf (resolveCheckerIdentity settings checkerIdentity)
  have ownedAfter := owned_ensured owned after
  constructor
  · have isInstance : (step rules session (.getSentence l1 settings localeKey sentence
          checkerIdentity)).instanceOf =
        (session.instanceOf.ensureIdentity (resolveCheckerIdentity settings checkerIdentity)).1 :=
      l2_cacheGetSentence rules ⟨l1, session.instanceOf⟩ localeKey sentence _
    rw [isInstance]
    exact owned_congr ownedAfter rfl rfl
  · intro row isShown
    rcases mem_append.mp isShown with old | new
    · exact legit_use (legit row old) _
    · obtain ⟨errors, seen, isRow⟩ := Option.map_eq_some_iff.mp (Option.mem_toList.mp new)
      subst isRow
      split at seen
      · cases seen
      · exact legit_of_more (legit_of_get ownedAfter (sessionIdentity_of_ensured after) seen)
          (fun _ old => old) fun _ old => old

theorem isolated_putSentence (allowed : Allowed session
      (.putSentence l1 settings localeKey sentence errors checkerIdentity)) :
    Isolated (step rules session (.putSentence l1 settings localeKey sentence errors
        checkerIdentity)) := by
  have ⟨owned, legit⟩ := isolated
  have after := ensured session.instanceOf (resolveCheckerIdentity settings checkerIdentity)
  simp only [step]
  split
  · rename_i caches fp clipped stored
    constructor
    · rw [l2_cachePutSentence stored]
      exact owned_congr (owned_put fp clipped (owned_ensured owned after)
        (sessionIdentity_of_ensured after)
        (not_pending_of_ensured allowed after)) rfl rfl
    · intro row isShown
      exact legit_of_more (legit_use (legit row isShown) _)
        (fun _ old => mem_append_left _ old) fun _ old => old
  · exact isolated

theorem isolated_clear : Isolated (step rules session .clear) := by
  obtain ⟨persistence, puts, loads, shown⟩ := session
  refine ⟨?_, isolated.legit⟩
  cases persistence with
  | none | some p => exact owned_empty rfl fun _ => rfl

theorem isolated_step {action : Action} (allowed : Allowed session action) :
    Isolated (step rules session action) := by
  cases action with
  | bind settings raw => exact isolated_bind isolated allowed
  | getSentence l1 settings localeKey sentence checkerIdentity =>
    exact isolated_getSentence isolated
  | putSentence l1 settings localeKey sentence errors checkerIdentity =>
    exact isolated_putSentence isolated allowed
  | clear => exact isolated_clear isolated
  | unload => exact ⟨owned_empty rfl fun _ => rfl, isolated.legit⟩

end

/-- What is shown under an identity was put under it or is from a blob of
its. -/
theorem run_isolated (rules : SentenceRules) {run : List Action}
    (along : Along (step rules) Allowed init run) :
    ∀ row ∈ (run.foldl (step rules) init).shown, (run.foldl (step rules) init).Legit row :=
  (along.foldl_invariant Isolated (fun _ _ isolated allowed => isolated_step isolated allowed)
    isolated_init).legit

section Upgrade

def goRules : SentenceRules :=
  ⟨fun c => c == '.', fun _ => "57641a5f759efec4c2bcff45".toList⟩

def goSentence : Text := "He go.".toList

/-- A cache from before checkers had names, with a rule of an LLM. -/
def upgradedBlob (fp : Text) : CacheBlob :=
  ⟨2, [], [], .ofPairs [(fp, [.ofPairs [("s".toList, .int 3), ("l".toList, .int 2),
      ("r".toList, .str "wa_g_rule||agreement".toList)]])]⟩

def harperError : GrammarError :=
  .ofPairs [("n_error_start".toList, .int 3), ("n_error_length".toList, .int 2),
    ("rule_identifier".toList, .str "harper||Agreement".toList)]

def harperSettings : GrammarSettings := ⟨"harper".toList, none⟩

instance (session : DocumentSession) (row : OwnedRow) : Decidable (session.Legit row) := by
  unfold Legit
  infer_instance

/-- The rows are adopted first, and dropped when Harper is used. -/
theorem run_isolated_adoption :
    let run : List Action :=
      [.bind harperSettings (some (upgradedBlob "57641a5f759efec4c2bcff45".toList)),
        .getSentence .empty harperSettings "en-US".toList goSentence (some "llm:gpt".toList),
        .putSentence .empty harperSettings "en-US".toList goSentence [harperError] none,
        .getSentence .empty harperSettings "en-US".toList goSentence none]
    (run.foldl (step goRules) init).shown.length = 2 ∧
      ∀ row ∈ (run.foldl (step goRules) init).shown, (run.foldl (step goRules) init).Legit row := by
  refine ⟨by decide +kernel, run_isolated goRules ⟨?_, trivial, ?_, trivial,
    trivial⟩⟩
  · exact fun _ _ _ => rfl
  · rintro (isMarker | ⟨waiting, _⟩)
    · exact absurd isMarker (by decide)
    · exact absurd waiting (by decide +kernel)

/-- What Harper puts while the rows wait for an LLM is adopted with them. -/
theorem run_isolated_put_first :
    let run : List Action :=
      [.bind harperSettings (some (upgradedBlob "8c7dd922ad47494fc02c388e".toList)),
        .putSentence .empty harperSettings "en-US".toList goSentence [harperError] none,
        .getSentence .empty harperSettings "en-US".toList goSentence (some "llm:gpt".toList)]
    (run.foldl (step goRules) init).shown =
        [⟨"llm:gpt".toList, "57641a5f759efec4c2bcff45".toList, [harperError]⟩] ∧
      ¬∀ row ∈ (run.foldl (step goRules) init).shown,
        (run.foldl (step goRules) init).Legit row := by
  decide +kernel

end Upgrade

end DocumentSession

end WriterAgent.Locale
