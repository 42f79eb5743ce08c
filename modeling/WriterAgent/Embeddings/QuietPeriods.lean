import WriterAgent.Embeddings.IncrementalRebuild

/-!
# A folder over quiet periods and passes

Files are saved, renamed and deleted, and from time to time the corpus is
maintained while nothing changes.
-/

namespace WriterAgent.Embeddings

open PyText List

variable {Url Content Time : Type} [DecidableEq Url]

/-- A save creates, edits or empties a file. -/
inductive Change (Url Content : Type) where
  | save (docUrl : Url) (content : Content)
  | delete (docUrl : Url)
  | rename (docUrl newUrl : Url)

def Change.apply (moment : Time) (folder : Folder Url Content Time) :
    Change Url Content → Folder Url Content Time
  | .save docUrl content => folder.set docUrl { modified := moment, content }
  | .delete docUrl => folder.pop docUrl
  | .rename docUrl newUrl =>
    match folder.get? docUrl with
    | none => folder
    | some file => (folder.pop docUrl).set newUrl { file with modified := moment }

variable {listing : List (Url × SavedFile Content Time)}
  {file : Url × SavedFile Content Time} {moment : Time}
  {folder : Folder Url Content Time}

theorem mem_of_mem_apply {change : Change Url Content}
    (member : file ∈ (change.apply moment folder).entries) :
    file ∈ folder.entries ∨ file.2.modified = moment := by
  cases change with
  | save docUrl content =>
    rcases PyDict.mem_of_mem_set member with rfl | old
    · exact Or.inr rfl
    · exact Or.inl old
  | delete docUrl => exact Or.inl (mem_filter.mp member).1
  | rename docUrl newUrl =>
    rw [Change.apply] at member
    split at member
    · exact Or.inl member
    · rcases PyDict.mem_of_mem_set member with rfl | old
      · exact Or.inr rfl
      · exact Or.inl (mem_filter.mp old).1

omit [DecidableEq Url] in
theorem listing_distinct (listed : listing.Perm folder.entries) : (listing.map Prod.fst).Nodup :=
  (listed.map Prod.fst).nodup_iff.mpr folder.distinct

structure FolderState (Url Content Time : Type) where
  folder : Folder Url Content Time
  corpus : Corpus Url Time
  now : Time

inductive Event (Url Content Time : Type) where
  | change (moment : Time) (change : Change Url Content)
  | pass (listing : List (Url × SavedFile Content Time)) (clock : Url → Time) (ended : Time)

variable [LinearOrder Time] [Zero Time]

def FolderState.step (env : Environment Url Content) (mode : SearchMode)
    (state : FolderState Url Content Time) :
    Event Url Content Time → Option (FolderState Url Content Time)
  | .change moment change =>
    some { state with folder := change.apply moment state.folder, now := moment }
  | .pass listing clock ended =>
    (maintainFolderCorpus env mode clock listing state.corpus).map fun corpus =>
      { state with corpus, now := ended }

def FolderState.initial : FolderState Url Content Time where
  folder := PyDict.empty
  corpus := Corpus.missing
  now := 0

/-- A change comes after every earlier clock value.  A pass lists the folder
and reads the clock from now on. -/
def Timely (state : FolderState Url Content Time) : Event Url Content Time → Prop
  | .change moment _ => state.now < moment
  | .pass listing clock ended => listing.Perm state.folder.entries ∧ state.now ≤ ended ∧
      ∀ file ∈ listing, state.now ≤ clock file.1 ∧ clock file.1 ≤ ended

/-- No file with rows is gone or without chunks, and nothing stored stands in
the way of the chunks of a stale file. -/
def PassSafe (env : Environment Url Content) (mode : SearchMode)
    (listing : List (Url × SavedFile Content Time)) (corpus : Corpus Url Time) : Prop :=
  (∀ row ∈ corpus.chunks.rows, ∃ file ∈ listing,
    file.1 = row.docUrl ∧ indexableChunks env file.1 file.2.content ≠ []) ∧
  ∀ file ∈ listing, fileIsStale corpus file.1 file.2.modified = true →
    ReindexSafe mode (indexableChunks env file.1 file.2.content) corpus.chunks

def Safe (env : Environment Url Content) (mode : SearchMode)
    (state : FolderState Url Content Time) : Event Url Content Time → Prop
  | .change _ _ => True
  | .pass listing _ _ => PassSafe env mode listing state.corpus

instance [DecidableEq Content] (state : FolderState Url Content Time)
    (event : Event Url Content Time) : Decidable (Timely state event) :=
  match event with
  | .change moment _ => inferInstanceAs (Decidable (state.now < moment))
  | .pass _ _ _ => instDecidableAnd

instance (env : Environment Url Content) (mode : SearchMode)
    (listing : List (Url × SavedFile Content Time)) (corpus : Corpus Url Time) :
    Decidable (PassSafe env mode listing corpus) :=
  instDecidableAnd

instance (env : Environment Url Content) (mode : SearchMode)
    (state : FolderState Url Content Time) (event : Event Url Content Time) :
    Decidable (Safe env mode state event) :=
  match event with
  | .change _ _ => instDecidableTrue
  | .pass listing _ _ => inferInstanceAs (Decidable (PassSafe env mode listing state.corpus))

def ChunkRow.passage (row : ChunkRow Url) : Locator Url × Text := (row.toLocator, row.body)

/-- The rows are those of a cold build of the listed folder. -/
def Rebuilt (env : Environment Url Content) (mode : SearchMode) (clock : Url → Time)
    (listing : List (Url × SavedFile Content Time)) (corpus : Corpus Url Time) : Prop :=
  ∃ cold, coldBuild env mode clock listing = some cold ∧
    (corpus.chunks.rows.map ChunkRow.passage).Perm (cold.chunks.rows.map ChunkRow.passage)

instance (env : Environment Url Content) (mode : SearchMode) (clock : Url → Time)
    (listing : List (Url × SavedFile Content Time)) (corpus : Corpus Url Time) :
    Decidable (Rebuilt env mode clock listing corpus) :=
  decidable_of_iff ((coldBuild env mode clock listing).any fun cold => decide
      ((corpus.chunks.rows.map ChunkRow.passage).Perm (cold.chunks.rows.map ChunkRow.passage)))
    (by simp only [Rebuilt, Option.any_eq_true, decide_eq_true_iff])

variable {env : Environment Url Content} {mode : SearchMode} {state : FolderState Url Content Time}

/-- Between passes every file is stale or has its rows, and every row is of a
file stamped before now. -/
structure Maintained (env : Environment Url Content) (mode : SearchMode)
    (state : FolderState Url Content Time) : Prop where
  kept : Kept env mode state.corpus.chunks
  count : state.corpus.chunkCount = state.corpus.chunks.rows.length
  stamped : ∀ row ∈ state.corpus.chunks.rows, ∃ stamp,
    state.corpus.indexedFiles row.docUrl = some stamp ∧ stamp.lastIndexedAt ≤ state.now
  upToDate : ∀ file ∈ state.folder.entries, fileIsStale state.corpus file.1 file.2.modified = true ∨
      RowsCurrent env mode state.corpus file ∧
        ReindexSafe mode (indexableChunks env file.1 file.2.content) UniqueTable.empty

theorem maintained_initial :
    Maintained env mode (FolderState.initial : FolderState Url Content Time) where
  kept := kept_empty mode
  count := rfl
  stamped _ member := absurd member not_mem_nil
  upToDate _ member := absurd member not_mem_nil

theorem Maintained.change (maintained : Maintained env mode state) (later : state.now < moment)
    (change : Change Url Content) :
    Maintained env mode
      { state with folder := change.apply moment state.folder, now := moment } where
  kept := maintained.kept
  count := maintained.count
  stamped row member := by
    obtain ⟨stamp, found, before⟩ := maintained.stamped row member
    exact ⟨stamp, found, before.trans later.le⟩
  upToDate file member := by
    rcases mem_of_mem_apply member with old | changed
    · exact maintained.upToDate file old
    · left
      rw [fileIsStale_iff, or_iff_not_imp_left]
      intro some_row
      push Not at some_row
      obtain ⟨row, isRow, sameUrl⟩ := some_row
      obtain ⟨stamp, found, before⟩ := maintained.stamped row isRow
      rw [sameUrl] at found
      rw [found, changed]
      exact before.trans_lt later

section

variable (maintained : Maintained env mode state)
  (listed : listing.Perm state.folder.entries)
  (safe : PassSafe env mode listing state.corpus) (member : file ∈ listing)

include maintained listed safe member

theorem refreshable_of_safe : Refreshable env mode state.corpus file := by
  rw [Refreshable]
  split_ifs with stale
  · refine ⟨fun noChunk row isRow sameUrl => ?_, safe.2 file member stale⟩
    obtain ⟨other, isOther, otherUrl, some_chunk⟩ := safe.1 row isRow
    obtain rfl : other = file := inj_on_of_nodup_map (listing_distinct listed) isOther
      member (otherUrl.trans sameUrl)
    exact some_chunk noChunk
  · exact ((maintained.upToDate file (listed.mem_iff.mp member)).resolve_left stale).1

theorem buildable_of_safe :
    ReindexSafe mode (indexableChunks env file.1 file.2.content) UniqueTable.empty := by
  rcases maintained.upToDate file (listed.mem_iff.mp member) with stale | ⟨-, buildable⟩
  · exact (safe.2 file member stale).mono fun row none => absurd none not_mem_nil
  · exact buildable

end

theorem maintainFolderCorpus_eq (clock : Url → Time) (distinct : (listing.map Prod.fst).Nodup)
    {corpus : Corpus Url Time} :
    maintainFolderCorpus env mode clock listing corpus = incrementalRefresh env mode clock listing
        (if corpus.chunkCount = 0 then Corpus.missing else corpus) := by
  rw [maintainFolderCorpus]
  split_ifs
  · exact coldBuild_eq clock distinct
  · rfl

theorem refreshable_missing (buildable :
      ReindexSafe mode (indexableChunks env file.1 file.2.content) UniqueTable.empty) :
    Refreshable env mode (Corpus.missing : Corpus Url Time) file := by
  have absent : ∀ row ∈ (Corpus.missing : Corpus Url Time).chunks.rows,
      row.docUrl ≠ file.1 := fun _ none => absurd none not_mem_nil
  exact ⟨fun _ => absent, buildable⟩

theorem started_of_safe (maintained : Maintained env mode state)
    (listed : listing.Perm state.folder.entries) (safe : PassSafe env mode listing state.corpus)
    {start : Corpus Url Time}
    (isStart : (if state.corpus.chunkCount = 0 then Corpus.missing else state.corpus) = start) :
    Kept env mode start.chunks ∧ (∀ file ∈ listing, Refreshable env mode start file) ∧
      (∀ row ∈ start.chunks.rows, row.docUrl ∈ listing.map Prod.fst) ∧
      ∀ row ∈ start.chunks.rows, ∃ stamp,
        start.indexedFiles row.docUrl = some stamp ∧ stamp.lastIndexedAt ≤ state.now := by
  split_ifs at isStart with empty
  · subst isStart
    exact ⟨kept_empty mode,
      fun file member => refreshable_missing (buildable_of_safe maintained listed safe member),
      fun _ none => absurd none not_mem_nil, fun _ none => absurd none not_mem_nil⟩
  · subst isStart
    refine ⟨maintained.kept, fun file member => refreshable_of_safe maintained listed safe member,
      ?_, maintained.stamped⟩
    intro row isRow
    obtain ⟨file, member, sameUrl, -⟩ := safe.1 row isRow
    exact mem_map.mpr ⟨file, member, sameUrl⟩

theorem Maintained.pass (maintained : Maintained env mode state)
    {listing : List (Url × SavedFile Content Time)} {clock : Url → Time} {ended : Time}
    (timely : Timely state (.pass listing clock ended))
    (safe : PassSafe env mode listing state.corpus) :
    ∃ corpus', maintainFolderCorpus env mode clock listing state.corpus = some corpus' ∧
      Rebuilt env mode clock listing corpus' ∧
      Maintained env mode { state with corpus := corpus', now := ended } := by
  obtain ⟨listed, later, readings⟩ := timely
  have distinct := listing_distinct listed
  rw [maintainFolderCorpus_eq clock distinct]
  generalize isStart : (if state.corpus.chunkCount = 0 then Corpus.missing else state.corpus) =
    start
  obtain ⟨kept, ready, inListing, stamped⟩ := started_of_safe maintained listed safe isStart
  obtain ⟨refreshed, run, spec⟩ := exists_refreshFiles distinct kept clock ready
  have rows_iff : ∀ row : ChunkRow Url, row ∈ refreshed.chunks.rows ↔
      ∃ file ∈ listing, row ∈ fileRows env mode file.1 file.2.content := by
    intro row
    rw [spec.mem_iff, or_iff_right]
    exact fun old => old.2 (inListing row old.1)
  refine ⟨writeRowCount refreshed, by rw [incrementalRefresh, run]; rfl, ?_, ?_⟩
  · -- the cold build makes the same rows from nothing
    obtain ⟨built, runCold, specCold⟩ := exists_refreshFiles distinct (kept_empty mode) clock
      fun file member => refreshable_missing (buildable_of_safe maintained listed safe member)
    refine ⟨writeRowCount built, ?_, (UniqueTable.perm_of_mem_iff fun row => ?_).map _⟩
    · rw [coldBuild_eq clock distinct, incrementalRefresh, runCold]
      rfl
    · exact (rows_iff row).trans (Iff.symm ((specCold.mem_iff row).trans
        (or_iff_right fun old => absurd old.1 not_mem_nil)))
  · refine ⟨spec.kept, rfl, fun row member => ?_, fun file member => Or.inr ⟨?_, ?_⟩⟩
    · rcases spec.stamps row.docUrl with ⟨same, rows⟩ | ⟨isFile, modified, found⟩
      · obtain ⟨stamp, found, before⟩ := stamped row (rows row member rfl)
        exact ⟨stamp, same.trans found, before.trans later⟩
      · obtain ⟨file, isListed, sameUrl⟩ := mem_map.mp isFile
        exact ⟨_, found, sameUrl ▸ (readings file isListed).2⟩
    · intro row sameUrl
      refine (rows_iff row).trans ⟨?_, fun isRow => ⟨file, listed.mem_iff.mpr member, isRow⟩⟩
      rintro ⟨other, isOther, isRow⟩
      obtain rfl : other = file := inj_on_of_nodup_map distinct isOther
        (listed.mem_iff.mpr member) ((fileRows_docUrl isRow).symm.trans sameUrl)
      exact isRow
    · exact buildable_of_safe maintained listed safe (listed.mem_iff.mpr member)

theorem Maintained.step (maintained : Maintained env mode state)
    {event : Event Url Content Time} (timely : Timely state event)
    (safe : Safe env mode state event) {next : FolderState Url Content Time}
    (taken : state.step env mode event = some next) : Maintained env mode next := by
  cases event with
  | change moment change =>
    cases taken
    exact maintained.change timely change
  | pass listing clock ended =>
    obtain ⟨corpus', run, -, keeps⟩ := maintained.pass timely safe
    rw [FolderState.step, run] at taken
    cases taken
    exact keeps

/-- In every sequence of changes and passes whose conditions hold, a pass
whose condition holds returns and leaves what a cold build leaves. -/
theorem maintainFolderCorpus_rebuilds {events : List (Event Url Content Time)}
    (reaches : Reaches (FolderState.step env mode)
      (fun state event => Timely state event ∧ Safe env mode state event)
      FolderState.initial events state)
    {listing : List (Url × SavedFile Content Time)} {clock : Url → Time} {ended : Time}
    (timely : Timely state (.pass listing clock ended))
    (safe : PassSafe env mode listing state.corpus) :
    ∃ corpus', maintainFolderCorpus env mode clock listing state.corpus = some corpus' ∧
      Rebuilt env mode clock listing corpus' := by
  have maintained := reaches.invariant (Maintained env mode)
    (fun _ _ _ maintained allowed taken => maintained.step allowed.1 allowed.2 taken)
    maintained_initial
  obtain ⟨corpus', run, rebuilt, -⟩ := maintained.pass timely safe
  exact ⟨corpus', run, rebuilt⟩

section Samples

def listUrl : Text := "file:///notes/b.txt".toList

def noteFile (modified : Nat) (text : String) : Text × SavedFile (List Passage) Nat :=
  (noteUrl, { modified, content := [wholePassage text.toList] })

def listFile : Text × SavedFile (List Passage) Nat :=
  (listUrl, { modified := 2, content := [wholePassage "Milk and bread.".toList] })

def twoFilesIndexed : List (Event Text (List Passage) Nat) :=
  [.change 1 (.save noteUrl [wholePassage "One.".toList]),
    .change 2 (.save listUrl [wholePassage "Milk and bread.".toList]),
    .pass [noteFile 1 "One.", listFile] (fun _ => 3) 4]

theorem editedFile_rebuilds : ∃ state, Reaches (FolderState.step sampleEnv .embeddings)
      (fun state event => Timely state event ∧ Safe sampleEnv .embeddings state event)
      FolderState.initial
      (twoFilesIndexed ++ [.change 5 (.save noteUrl [wholePassage "Two.".toList])]) state ∧
    ∃ corpus', maintainFolderCorpus sampleEnv .embeddings (fun _ => 6)
        [noteFile 5 "Two.", listFile] state.corpus = some corpus' ∧
      Rebuilt sampleEnv .embeddings (fun _ => 6) [noteFile 5 "Two.", listFile] corpus' := by
  have ran : ((follow (FolderState.step sampleEnv .embeddings)
      (fun state event => Timely state event ∧ Safe sampleEnv .embeddings state event)
      FolderState.initial
      (twoFilesIndexed ++ [.change 5 (.save noteUrl [wholePassage "Two.".toList])])).any
      fun state => decide (Timely state (.pass [noteFile 5 "Two.", listFile] (fun _ => 6) 7) ∧
        PassSafe sampleEnv .embeddings [noteFile 5 "Two.", listFile] state.corpus)) = true := by
    decide +kernel
  obtain ⟨state, followed, allowed⟩ := (Option.any_eq_true _ _).mp ran
  obtain ⟨timely, safe⟩ := of_decide_eq_true allowed
  exact ⟨state, .of_follow followed,
    maintainFolderCorpus_rebuilds (.of_follow followed) timely safe⟩

/-- The second file is deleted, and the next pass leaves its row. -/
theorem deletedFile_keepsRow : ∃ state, Reaches (FolderState.step sampleEnv .embeddings) Timely
      FolderState.initial (twoFilesIndexed ++ [.change 5 (.delete listUrl)]) state ∧
    Timely state (.pass [noteFile 1 "One."] (fun _ => 6) 7) ∧
    ∃ corpus', maintainFolderCorpus sampleEnv .embeddings (fun _ => 6) [noteFile 1 "One."]
        state.corpus = some corpus' ∧
      ¬ Rebuilt sampleEnv .embeddings (fun _ => 6) [noteFile 1 "One."] corpus' := by
  have ran : ((follow (FolderState.step sampleEnv .embeddings) Timely FolderState.initial
      (twoFilesIndexed ++ [.change 5 (.delete listUrl)])).any fun state =>
        decide (Timely state (.pass [noteFile 1 "One."] (fun _ => 6) 7)) &&
        (maintainFolderCorpus sampleEnv .embeddings (fun _ => 6) [noteFile 1 "One."]
          state.corpus).any fun corpus' =>
            !decide (Rebuilt sampleEnv .embeddings (fun _ => 6) [noteFile 1 "One."] corpus')) =
      true := by
    decide +kernel
  obtain ⟨state, followed, both⟩ := (Option.any_eq_true _ _).mp ran
  obtain ⟨timely, left⟩ := Bool.and_eq_true_iff.mp both
  obtain ⟨corpus', maintained, differs⟩ := (Option.any_eq_true _ _).mp left
  exact ⟨state, .of_follow followed, of_decide_eq_true timely, corpus', maintained,
    by simpa using differs⟩

end Samples

end WriterAgent.Embeddings
