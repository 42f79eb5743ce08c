import WriterAgent.Embeddings.IncrementalRebuild

/-!
# Saves during maintenance

A pass lists the folder, tests each file, extracts the stale ones and writes
what has changed, and a file can be saved between any two of these steps.
-/

namespace WriterAgent.Embeddings

open PyText List

variable {Url Content Time : Type} [DecidableEq Url]

/-- Where a pass is.  An error leaves the indexer idle. -/
inductive Phase (Url Time : Type) where
  | idle
  | listing (names : List Url) (entries : List (WriterFileEntry Url Time))
  | scanning (entries : List (WriterFileEntry Url Time))
  | extracting (entry : WriterFileEntry Url Time) (rest : List (WriterFileEntry Url Time))
  | writing (entry : WriterFileEntry Url Time) (writes : List (Write Url))
      (rest : List (WriterFileEntry Url Time))
  | finished

structure IndexerState (Url Content Time : Type) where
  now : Time
  files : Folder Url Content Time
  corpus : Corpus Url Time
  phase : Phase Url Time

inductive IndexerEvent (Url Content Time : Type) where
  | tick (later : Time)
  | save (docUrl : Url) (content : Content)
  | advance

variable [LinearOrder Time] [Zero Time]

def IndexerState.initial : IndexerState Url Content Time where
  now := 0
  files := PyDict.empty
  corpus := Corpus.missing
  phase := .idle

/-- The next step of the indexer.  A pass over an empty index clears it: a
file without rows is stale and all of its chunks are indexed, as in a cold
build. -/
def IndexerState.advance (env : Environment Url Content) (mode : SearchMode)
    (state : IndexerState Url Content Time) : IndexerState Url Content Time :=
  match state.phase with
  | .idle => { state with phase := .listing state.files.keys [] }
  | .finished => { state with phase := .listing state.files.keys [] }
  | .listing (name :: names) entries =>
    let modified := ((state.files.get? name).map SavedFile.modified).getD 0
    { state with phase := .listing names (entries ++ [{ url := name, modified }]) }
  | .listing [] entries =>
    { state with
      corpus := if state.corpus.chunkCount = 0 then Corpus.missing else state.corpus
      phase := .scanning entries }
  | .scanning (entry :: rest) =>
    if fileIsStale state.corpus entry.url entry.modified then
      { state with phase := .extracting entry rest }
    else { state with phase := .scanning rest }
  | .scanning [] => { state with corpus := writeRowCount state.corpus, phase := .finished }
  | .extracting entry rest =>
    match state.files.get? entry.url with
    | none => { state with phase := .idle }
    | some file =>
      let writes := reindexWrites env entry.url file.content state.corpus.chunks
      { state with phase := .writing entry writes rest }
  | .writing entry (write :: writes) rest =>
    match write.run mode entry state.now state.corpus with
    | none => { state with phase := .idle }
    | some corpus => { state with corpus, phase := .writing entry writes rest }
  | .writing _ [] rest => { state with phase := .scanning rest }

def IndexerState.step (env : Environment Url Content) (mode : SearchMode)
    (state : IndexerState Url Content Time) :
    IndexerEvent Url Content Time → IndexerState Url Content Time
  | .tick later => { state with now := later }
  | .save docUrl content =>
    { state with files := state.files.set docUrl { modified := state.now, content } }
  | .advance => state.advance env mode

/-- The clock does not go back. -/
def Forward (state : IndexerState Url Content Time) : IndexerEvent Url Content Time → Prop
  | .tick later => state.now ≤ later
  | .save _ _ => True
  | .advance => True

instance (state : IndexerState Url Content Time) (event : IndexerEvent Url Content Time) :
    Decidable (Forward state event) :=
  match event with
  | .tick later => inferInstanceAs (Decidable (state.now ≤ later))
  | .save _ _ => instDecidableTrue
  | .advance => instDecidableTrue

variable {env : Environment Url Content} {mode : SearchMode} {state : IndexerState Url Content Time}

def StampFollows : List (Write Url) → Prop
  | [] => True
  | .stamp :: rest => StampFollows rest
  | .ingest _ _ :: .stamp :: rest => StampFollows rest
  | .ingest _ _ :: _ => False

omit [DecidableEq Url] in
theorem stampFollows_fileWrites (toIndex : List (ParagraphChunk Url))
    (toDelete : List (Locator Url)) : StampFollows (fileWrites toIndex toDelete) := by
  rw [fileWrites]
  by_cases noDelete : toDelete = [] <;> by_cases noIndex : toIndex = [] <;>
    simp [noDelete, noIndex, StampFollows]

/-- The rows of the file were written and its stamp is next. -/
def Phase.awaitsStamp (docUrl : Url) : Phase Url Time → Prop
  | .writing entry (.stamp :: _) _ => entry.url = docUrl
  | _ => False

structure WellIndexed (env : Environment Url Content) (mode : SearchMode)
    (state : IndexerState Url Content Time) : Prop where
  kept : Kept env mode state.corpus.chunks
  stamps : ∀ docUrl stamp, state.corpus.indexedFiles docUrl = some stamp →
    stamp.lastIndexedAt ≤ state.now
  stamped : ∀ row ∈ state.corpus.chunks.rows,
    (∃ stamp, state.corpus.indexedFiles row.docUrl = some stamp) ∨
      state.phase.awaitsStamp row.docUrl
  writes : ∀ entry writes rest, state.phase = .writing entry writes rest →
    StampFollows writes ∧ ∀ write ∈ writes, write.OfFile env entry.url

omit [DecidableEq Url] in
theorem wellIndexed_initial :
    WellIndexed env mode (IndexerState.initial : IndexerState Url Content Time) where
  kept := kept_empty mode
  stamps _ _ found := by cases found
  stamped _ member := absurd member not_mem_nil
  writes _ _ _ isWriting := by cases isWriting

variable {corpus corpus' : Corpus Url Time}
  {event : IndexerEvent Url Content Time} {entry : WriterFileEntry Url Time}
  {writes : List (Write Url)}

omit [DecidableEq Url] [Zero Time] in
theorem WellIndexed.of_same_tables (well : WellIndexed env mode state)
    {next : IndexerState Url Content Time} (chunks : next.corpus.chunks = state.corpus.chunks)
    (stamps : next.corpus.indexedFiles = state.corpus.indexedFiles)
    (later : state.now ≤ next.now)
    (waits : ∀ docUrl, state.phase.awaitsStamp docUrl → next.phase.awaitsStamp docUrl)
    (writes : ∀ entry writes rest, next.phase = .writing entry writes rest →
      StampFollows writes ∧ ∀ write ∈ writes, write.OfFile env entry.url) :
    WellIndexed env mode next where
  kept := chunks ▸ well.kept
  stamps docUrl stamp found := by
    rw [stamps] at found
    exact (well.stamps docUrl stamp found).trans later
  stamped row member := by
    rw [chunks] at member
    rw [stamps]
    exact (well.stamped row member).imp_right (waits _)
  writes := writes

omit [Zero Time] in
theorem WellIndexed.write (well : WellIndexed env mode state) {write : Write Url}
    {rest : List (WriterFileEntry Url Time)}
    (isWriting : state.phase = .writing entry (write :: writes) rest)
    (run : write.run mode entry state.now state.corpus = some corpus) :
    WellIndexed env mode { state with corpus, phase := .writing entry writes rest } := by
  obtain ⟨follows, ofFile⟩ := well.writes _ _ _ isWriting
  have onChunks := Write.onChunks_of_run run
  have ofWrite := ofFile write mem_cons_self
  have ofRest : ∀ other ∈ writes, other.OfFile env entry.url :=
    fun other member => ofFile other (mem_cons_of_mem _ member)
  have stamped := well.stamped
  rw [isWriting] at stamped
  cases write with
  | stamp =>
    cases run
    refine ⟨well.kept, fun docUrl stamp found => ?_, fun row member => Or.inl ?_, ?_⟩
    · dsimp only at found
      by_cases isFile : docUrl = entry.url
      · rw [isFile, markFileIndexed_self] at found
        cases found
        exact le_rfl
      · rw [markFileIndexed_of_ne isFile] at found
        exact well.stamps docUrl stamp found
    · dsimp only
      by_cases isFile : row.docUrl = entry.url
      · rw [isFile]
        exact ⟨_, markFileIndexed_self _ _ _ _⟩
      · rw [markFileIndexed_of_ne isFile]
        rcases stamped row member with found | waits
        · exact found
        · exact absurd waits.symm isFile
    · rintro _ _ _ same
      cases same
      exact ⟨follows, ofRest⟩
  | ingest rows deleteKeys =>
    obtain ⟨count, run_eq⟩ := ingestRows_eq mode state.corpus rows deleteKeys
    rw [Write.run, run_eq] at run
    obtain ⟨chunks, ingested, rfl⟩ := Option.map_eq_some_iff.mp run
    obtain ⟨later, rfl⟩ : ∃ later, writes = .stamp :: later := by
      cases writes with
      | nil => cases follows
      | cons next later =>
        cases next with
        | stamp => exact ⟨later, rfl⟩
        | ingest _ _ => cases follows
    refine ⟨ofWrite.kept well.kept onChunks, well.stamps, fun row member => ?_, ?_⟩
    · by_cases isFile : row.docUrl = entry.url
      · exact Or.inr isFile.symm
      · have old := (ofWrite.frame onChunks isFile).mp member
        exact Or.inl ((stamped row old).resolve_right id)
    · rintro _ _ _ same
      cases same
      exact ⟨follows, ofRest⟩

theorem WellIndexed.advance (well : WellIndexed env mode state) :
    WellIndexed env mode (state.advance env mode) := by
  obtain ⟨now, files, corpus, phase⟩ := state
  cases phase with
  | idle | finished =>
    exact well.of_same_tables rfl rfl le_rfl (fun _ => False.elim) (by rintro _ _ _ ⟨⟩)
  | listing names entries =>
    cases names with
    | cons name names =>
      exact well.of_same_tables rfl rfl le_rfl (fun _ => False.elim) (by rintro _ _ _ ⟨⟩)
    | nil =>
      by_cases empty : corpus.chunkCount = 0
      · rw [IndexerState.advance]
        simp only [empty, if_true]
        exact ⟨kept_empty mode, by rintro _ _ ⟨⟩, fun _ member => absurd member not_mem_nil,
          by rintro _ _ _ ⟨⟩⟩
      · refine well.of_same_tables ?_ ?_ le_rfl (fun _ => False.elim) (by rintro _ _ _ ⟨⟩)
        · exact congrArg Corpus.chunks (if_neg empty)
        · exact congrArg Corpus.indexedFiles (if_neg empty)
  | scanning entries =>
    cases entries with
    | nil => exact well.of_same_tables rfl rfl le_rfl (fun _ => False.elim) (by rintro _ _ _ ⟨⟩)
    | cons entry rest =>
      rw [IndexerState.advance]
      dsimp only
      split_ifs <;>
        exact well.of_same_tables rfl rfl le_rfl (fun _ => False.elim) (by rintro _ _ _ ⟨⟩)
  | extracting entry rest =>
    rw [IndexerState.advance]
    dsimp only
    cases files.get? entry.url with
    | none =>
      exact well.of_same_tables rfl rfl le_rfl (fun _ => False.elim) (by rintro _ _ _ ⟨⟩)
    | some file =>
      refine well.of_same_tables rfl rfl le_rfl (fun _ => False.elim) ?_
      rintro _ _ _ same
      cases same
      exact ⟨stampFollows_fileWrites _ _, fun _ => reindexWrites_ofFile⟩
  | writing entry writes rest =>
    cases writes with
    | nil => exact well.of_same_tables rfl rfl le_rfl (fun _ => False.elim) (by rintro _ _ _ ⟨⟩)
    | cons write writes =>
      rw [IndexerState.advance]
      dsimp only
      cases run : write.run mode entry now corpus with
      | some next => exact well.write rfl run
      | none =>
        cases write with
        | stamp => cases run
        | ingest _ _ =>
          exact well.of_same_tables rfl rfl le_rfl (fun _ => False.elim) (by rintro _ _ _ ⟨⟩)

theorem WellIndexed.step (well : WellIndexed env mode state) (forward : Forward state event) :
    WellIndexed env mode (state.step env mode event) := by
  cases event with
  | tick later => exact well.of_same_tables rfl rfl forward (fun _ waits => waits) well.writes
  | save docUrl content =>
    exact well.of_same_tables rfl rfl le_rfl (fun _ waits => waits) well.writes
  | advance => exact well.advance

/-- The indexer has extracted the file and has not finished its writes. -/
def Phase.isWriting (docUrl : Url) : Phase Url Time → Prop
  | .writing entry _ _ => entry.url = docUrl
  | _ => False

omit [LinearOrder Time] [Zero Time] in
instance (docUrl : Url) (phase : Phase Url Time) : Decidable (phase.isWriting docUrl) :=
  match phase with
  | .writing entry _ _ => inferInstanceAs (Decidable (entry.url = docUrl))
  | .idle | .listing _ _ | .scanning _ | .extracting _ _ | .finished => instDecidableFalse

/-- Steps after the last save of a file. -/
def NoSave (docUrl : Url) : IndexerEvent Url Content Time → Prop
  | .save other _ => other ≠ docUrl
  | .tick _ => True
  | .advance => True

instance (docUrl : Url) (event : IndexerEvent Url Content Time) : Decidable (NoSave docUrl event) :=
  match event with
  | .save other _ => inferInstanceAs (Decidable (other ≠ docUrl))
  | .tick _ => instDecidableTrue
  | .advance => instDecidableTrue

/-- When the file is extracted, nothing stored stands in the way of its
chunks. -/
def ExtractSafe (env : Environment Url Content) (mode : SearchMode) (docUrl : Url)
    (content : Content) (state : IndexerState Url Content Time) : Prop :=
  match state.phase with
  | .extracting entry _ => entry.url = docUrl →
      ReindexSafe mode (indexableChunks env docUrl content) state.corpus.chunks
  | _ => True

instance (env : Environment Url Content) (mode : SearchMode) (docUrl : Url)
    (content : Content) (state : IndexerState Url Content Time) :
    Decidable (ExtractSafe env mode docUrl content state) :=
  match state with
  | ⟨_, _, corpus, .extracting entry _⟩ => inferInstanceAs (Decidable (entry.url = docUrl →
      ReindexSafe mode (indexableChunks env docUrl content) corpus.chunks))
  | ⟨_, _, _, .idle⟩ | ⟨_, _, _, .listing _ _⟩ | ⟨_, _, _, .scanning _⟩
  | ⟨_, _, _, .writing _ _ _⟩ | ⟨_, _, _, .finished⟩ => instDecidableTrue

variable {docUrl : Url} {file : SavedFile Content Time}

/-- The next pass finds the file stale, or its rows are those of its
contents. -/
def Due (env : Environment Url Content) (mode : SearchMode) (corpus : Corpus Url Time)
    (docUrl : Url) (file : SavedFile Content Time) : Prop :=
  fileIsStale corpus docUrl file.modified = true ∨ RowsCurrent env mode corpus (docUrl, file)

/-- The writes that are left bring the rows of the file up to date. -/
def Completes (env : Environment Url Content) (mode : SearchMode) (writes : List (Write Url))
    (chunks : ChunksTable Url) (docUrl : Url) (content : Content) : Prop :=
  ∃ chunks', chunkWrites mode writes chunks = some chunks' ∧
    ∀ row : ChunkRow Url, row.docUrl = docUrl →
      (row ∈ chunks'.rows ↔ row ∈ fileRows env mode docUrl content)

/-- The last saved contents of a file are indexed, are being indexed or are
due. -/
structure Tracked (env : Environment Url Content) (mode : SearchMode) (docUrl : Url)
    (file : SavedFile Content Time) (state : IndexerState Url Content Time) : Prop where
  saved : state.files.get? docUrl = some file
  progress : match state.phase with
    | .writing entry writes _ =>
      if entry.url = docUrl then
        Completes env mode writes state.corpus.chunks docUrl file.content
      else Due env mode state.corpus docUrl file
    | _ => Due env mode state.corpus docUrl file

/-- Where a pass that was started after the last save has the file. -/
def Phase.covers (env : Environment Url Content) (mode : SearchMode)
    (corpus : Corpus Url Time) (docUrl : Url) (file : SavedFile Content Time) :
    Phase Url Time → Prop
  | .idle => True
  | .listing names entries => docUrl ∈ names ∨ ⟨docUrl, file.modified⟩ ∈ entries
  | .scanning entries =>
    ⟨docUrl, file.modified⟩ ∈ entries ∨ RowsCurrent env mode corpus (docUrl, file)
  | .extracting entry rest => entry.url = docUrl ∨ ⟨docUrl, file.modified⟩ ∈ rest ∨
      RowsCurrent env mode corpus (docUrl, file)
  | .writing entry _ rest => entry.url = docUrl ∨ ⟨docUrl, file.modified⟩ ∈ rest ∨
      RowsCurrent env mode corpus (docUrl, file)
  | .finished => RowsCurrent env mode corpus (docUrl, file)

theorem Due.congr (due : Due env mode corpus docUrl file)
    (rows : ∀ row : ChunkRow Url, row.docUrl = docUrl →
      (row ∈ corpus'.chunks.rows ↔ row ∈ corpus.chunks.rows))
    (stamp : corpus'.indexedFiles docUrl = corpus.indexedFiles docUrl) :
    Due env mode corpus' docUrl file := by
  rw [Due, fileIsStale_congr rows stamp]
  refine due.imp_right fun current row sameUrl => ?_
  exact (rows row sameUrl).trans (current row sameUrl)

theorem due_missing : Due env mode (Corpus.missing : Corpus Url Time) docUrl file :=
  Or.inl (fileIsStale_iff.mpr (Or.inl fun _ none => absurd none not_mem_nil))

omit [LinearOrder Time] [Zero Time] in
theorem Write.frame_of_run {now : Time} {write : Write Url} (ofFile : write.OfFile env entry.url)
    (run : write.run mode entry now corpus = some corpus') (isOther : entry.url ≠ docUrl) :
    (∀ row : ChunkRow Url, row.docUrl = docUrl →
      (row ∈ corpus'.chunks.rows ↔ row ∈ corpus.chunks.rows)) ∧
      corpus'.indexedFiles docUrl = corpus.indexedFiles docUrl := by
  refine ⟨fun row sameUrl => ofFile.frame (Write.onChunks_of_run run) ?_, ?_⟩
  · rw [sameUrl]
    exact isOther.symm
  · cases write with
    | stamp =>
      cases run
      exact markFileIndexed_of_ne isOther.symm _ _ _
    | ingest rows deleteKeys =>
      obtain ⟨count, run_eq⟩ := ingestRows_eq mode corpus rows deleteKeys
      rw [Write.run, run_eq] at run
      obtain ⟨chunks, -, rfl⟩ := Option.map_eq_some_iff.mp run
      rfl

theorem WellIndexed.tracked_save (well : WellIndexed env mode state) (content : Content)
    (notWriting : ¬ state.phase.isWriting docUrl)
    (afterStamp : ∀ stamp ∈ state.corpus.indexedFiles docUrl, stamp.lastIndexedAt ≠ state.now) :
    Tracked env mode docUrl { modified := state.now, content }
      (state.step env mode (.save docUrl content)) := by
  have due : Due env mode state.corpus docUrl { modified := state.now, content } := by
    left
    rw [fileIsStale_iff, or_iff_not_imp_left]
    intro some_row
    push Not at some_row
    obtain ⟨row, member, rfl⟩ := some_row
    rcases well.stamped row member with ⟨stamp, found⟩ | waits
    · rw [found]
      exact lt_of_le_of_ne (well.stamps _ stamp found) (afterStamp stamp found)
    · refine absurd ?_ notWriting
      cases phase : state.phase with
      | writing entry writes rest =>
        rw [phase] at waits
        cases writes with
        | nil => exact waits.elim
        | cons write writes =>
          cases write with
          | stamp => exact waits
          | ingest _ _ => exact waits.elim
      | _ => rw [phase] at waits; exact waits.elim
  refine ⟨by simp [IndexerState.step], ?_⟩
  rw [IndexerState.step]
  cases phase : state.phase with
  | writing entry writes rest =>
    rw [phase] at notWriting
    exact (if_neg notWriting).mpr due
  | _ => exact due

omit [DecidableEq Url] [LinearOrder Time] [Zero Time] in
theorem RowsCurrent.congr (current : RowsCurrent env mode corpus (docUrl, file))
    (rows : ∀ row : ChunkRow Url, row.docUrl = docUrl →
      (row ∈ corpus'.chunks.rows ↔ row ∈ corpus.chunks.rows)) :
    RowsCurrent env mode corpus' (docUrl, file) :=
  fun row sameUrl => (rows row sameUrl).trans (current row sameUrl)

omit [LinearOrder Time] [Zero Time] in
theorem completes_reindexWrites {chunks : ChunksTable Url} {content : Content}
    (kept : Kept env mode chunks) (some_chunk : indexableChunks env docUrl content ≠ [])
    (safe : ReindexSafe mode (indexableChunks env docUrl content) chunks) :
    Completes env mode (reindexWrites env docUrl content chunks) chunks docUrl content := by
  obtain ⟨chunks', done, mem_iff⟩ := reindex_rows kept some_chunk safe
  refine ⟨chunks', done, fun row sameUrl => ?_⟩
  rw [mem_iff, or_iff_right]
  exact fun old => old.2 sameUrl

/-- The indexer's next step keeps the track of a file, and a pass that covers
the file goes on covering it. -/
def StaysTracked (env : Environment Url Content) (mode : SearchMode) (docUrl : Url)
    (file : SavedFile Content Time) (state : IndexerState Url Content Time) : Prop :=
  Tracked env mode docUrl file (state.advance env mode) ∧
    (state.phase = .finished ∨ state.phase.covers env mode state.corpus docUrl file →
      (state.advance env mode).phase.covers env mode (state.advance env mode).corpus
        docUrl file)

section Phases

variable {now : Time} {files : Folder Url Content Time} {corpus : Corpus Url Time}
  {entry : WriterFileEntry Url Time} {entries rest : List (WriterFileEntry Url Time)}

theorem staysTracked_started {phase : Phase Url Time} (start : phase = .idle ∨ phase = .finished)
    (tracked : Tracked env mode docUrl file ⟨now, files, corpus, phase⟩) :
    StaysTracked env mode docUrl file ⟨now, files, corpus, phase⟩ := by
  have listed : docUrl ∈ files.keys :=
    mem_map_of_mem (PyDict.get?_eq_some_iff.mp tracked.saved)
  rcases start with rfl | rfl
  · exact ⟨⟨tracked.saved, tracked.progress⟩, fun _ => Or.inl listed⟩
  · exact ⟨⟨tracked.saved, tracked.progress⟩, fun _ => Or.inl listed⟩

theorem staysTracked_listing {names : List Url}
    (tracked : Tracked env mode docUrl file ⟨now, files, corpus, .listing names entries⟩) :
    StaysTracked env mode docUrl file ⟨now, files, corpus, .listing names entries⟩ := by
  obtain ⟨saved, due⟩ := tracked
  cases names with
  | cons name names =>
    refine ⟨⟨saved, due⟩, fun covers => ?_⟩
    rcases covers.resolve_left nofun with inNames | inEntries
    · rcases mem_cons.mp inNames with rfl | later
      · refine Or.inr (mem_append_right _ (mem_singleton.mpr ?_))
        rw [saved]
        rfl
      · exact Or.inl later
    · exact Or.inr (mem_append_left _ inEntries)
  | nil =>
    refine ⟨⟨saved, ?_⟩, fun covers => Or.inl ?_⟩
    · change Due env mode (if corpus.chunkCount = 0 then Corpus.missing else corpus) docUrl file
      split_ifs
      · exact due_missing
      · exact due
    · exact (covers.resolve_left nofun).resolve_left not_mem_nil

theorem staysTracked_scanning
    (tracked : Tracked env mode docUrl file ⟨now, files, corpus, .scanning entries⟩) :
    StaysTracked env mode docUrl file ⟨now, files, corpus, .scanning entries⟩ := by
  obtain ⟨saved, due⟩ := tracked
  cases entries with
  | nil =>
    refine ⟨⟨saved, due.congr (fun _ _ => Iff.rfl) rfl⟩, fun covers => ?_⟩
    exact (covers.resolve_left nofun).resolve_left not_mem_nil
  | cons entry rest =>
    rw [StaysTracked, IndexerState.advance]
    dsimp only
    split_ifs with stale
    · refine ⟨⟨saved, due⟩, fun covers => ?_⟩
      rcases covers.resolve_left (by rintro ⟨⟩) with inEntries | current
      · rcases mem_cons.mp inEntries with rfl | later
        · exact Or.inl rfl
        · exact Or.inr (Or.inl later)
      · exact Or.inr (Or.inr current)
    · refine ⟨⟨saved, due⟩, fun covers => ?_⟩
      rcases covers.resolve_left (by rintro ⟨⟩) with inEntries | current
      · rcases mem_cons.mp inEntries with rfl | later
        · exact Or.inr (due.resolve_left stale)
        · exact Or.inl later
      · exact Or.inr current

theorem staysTracked_extracting (kept : Kept env mode corpus.chunks)
    (some_chunk : indexableChunks env docUrl file.content ≠ [])
    (safe : entry.url = docUrl →
      ReindexSafe mode (indexableChunks env docUrl file.content) corpus.chunks)
    (tracked : Tracked env mode docUrl file ⟨now, files, corpus, .extracting entry rest⟩) :
    StaysTracked env mode docUrl file ⟨now, files, corpus, .extracting entry rest⟩ := by
  obtain ⟨saved, due⟩ := tracked
  rw [StaysTracked, IndexerState.advance]
  dsimp only
  by_cases isFile : entry.url = docUrl
  · rw [isFile, saved]
    refine ⟨⟨saved, (if_pos isFile).mpr ?_⟩, fun _ => Or.inl isFile⟩
    exact completes_reindexWrites kept some_chunk (safe isFile)
  · cases files.get? entry.url with
    | none => exact ⟨⟨saved, due⟩, fun _ => trivial⟩
    | some other =>
      exact ⟨⟨saved, (if_neg isFile).mpr due⟩, fun covers => covers.resolve_left nofun⟩

theorem staysTracked_written
    (tracked : Tracked env mode docUrl file ⟨now, files, corpus, .writing entry [] rest⟩) :
    StaysTracked env mode docUrl file ⟨now, files, corpus, .writing entry [] rest⟩ := by
  obtain ⟨saved, progress⟩ := tracked
  dsimp only at saved progress
  by_cases isFile : entry.url = docUrl
  · rw [if_pos isFile] at progress
    obtain ⟨chunks', done, current⟩ := progress
    cases done
    exact ⟨⟨saved, Or.inr current⟩, fun _ => Or.inr current⟩
  · rw [if_neg isFile] at progress
    exact ⟨⟨saved, progress⟩, fun covers =>
      (covers.resolve_left nofun).resolve_left isFile⟩

theorem staysTracked_writing {write : Write Url} (ofFile : write.OfFile env entry.url)
    (tracked : Tracked env mode docUrl file
      ⟨now, files, corpus, .writing entry (write :: writes) rest⟩) :
    StaysTracked env mode docUrl file
      ⟨now, files, corpus, .writing entry (write :: writes) rest⟩ := by
  obtain ⟨saved, progress⟩ := tracked
  dsimp only at saved progress
  rw [StaysTracked, IndexerState.advance]
  dsimp only
  by_cases isFile : entry.url = docUrl
  · rw [if_pos isFile] at progress
    obtain ⟨chunks', done, current⟩ := progress
    obtain ⟨next, first, later⟩ := Option.bind_eq_some_iff.mp done
    obtain ⟨corpus', run, rfl, -⟩ := Write.exists_run entry now first
    rw [run]
    exact ⟨⟨saved, (if_pos isFile).mpr ⟨chunks', later, current⟩⟩, fun _ => Or.inl isFile⟩
  · rw [if_neg isFile] at progress
    cases run : write.run mode entry now corpus with
    | none => exact ⟨⟨saved, progress⟩, fun _ => trivial⟩
    | some corpus' =>
      obtain ⟨rows, stamp⟩ := Write.frame_of_run ofFile run isFile
      refine ⟨⟨saved, (if_neg isFile).mpr (progress.congr rows stamp)⟩, fun covers => ?_⟩
      exact (covers.resolve_left nofun).imp_right (Or.imp_right fun current => current.congr rows)

end Phases

theorem Tracked.advance (tracked : Tracked env mode docUrl file state)
    (well : WellIndexed env mode state) (some_chunk : indexableChunks env docUrl file.content ≠ [])
    (safe : ExtractSafe env mode docUrl file.content state) :
    StaysTracked env mode docUrl file state := by
  obtain ⟨now, files, corpus, phase⟩ := state
  cases phase with
  | idle => exact staysTracked_started (Or.inl rfl) tracked
  | finished => exact staysTracked_started (Or.inr rfl) tracked
  | listing names entries => exact staysTracked_listing tracked
  | scanning entries => exact staysTracked_scanning tracked
  | extracting entry rest => exact staysTracked_extracting well.kept some_chunk safe tracked
  | writing entry writes rest =>
    cases writes with
    | nil => exact staysTracked_written tracked
    | cons write writes =>
      exact staysTracked_writing ((well.writes _ _ _ rfl).2 write mem_cons_self) tracked

def IndexerState.run (env : Environment Url Content) (mode : SearchMode)
    (events : List (IndexerEvent Url Content Time)) (state : IndexerState Url Content Time) :
    IndexerState Url Content Time :=
  events.foldl (IndexerState.step env mode) state

def Phase.resting : Phase Url Time → Bool
  | .idle => true
  | .finished => true
  | _ => false

def Phase.returned : Phase Url Time → Bool
  | .finished => true
  | _ => false

/-- A file is saved for the last time in the state `saving`; a pass is
started after the events `between` and has returned after those of
`after`. -/
structure PassAfterSave (env : Environment Url Content) (mode : SearchMode) (docUrl : Url)
    (content : Content) (saving : IndexerState Url Content Time)
    (between after : List (IndexerEvent Url Content Time)) : Prop where
  lastSave : Along (IndexerState.step env mode)
    (fun state event => Forward state event ∧ NoSave docUrl event)
    (saving.step env mode (.save docUrl content)) (between ++ .advance :: after)
  starts : ((saving.run env mode (.save docUrl content :: between)).phase.resting) = true
  returns : ((saving.run env mode
    (.save docUrl content :: between ++ .advance :: after)).phase.returned) = true

/-- The last save falls neither between an extraction of the file and the
stamp that follows nor on the clock value of its stamp, and whenever the file
is extracted afterwards nothing stored stands in the way of its chunks. -/
structure SaveSeen (env : Environment Url Content) (mode : SearchMode) (docUrl : Url)
    (content : Content) (saving : IndexerState Url Content Time)
    (between after : List (IndexerEvent Url Content Time)) : Prop where
  notWriting : ¬ saving.phase.isWriting docUrl
  afterStamp : ∀ stamp ∈ saving.corpus.indexedFiles docUrl, stamp.lastIndexedAt ≠ saving.now
  extracts : Along (IndexerState.step env mode)
    (fun state _ => ExtractSafe env mode docUrl content state)
    (saving.step env mode (.save docUrl content)) (between ++ .advance :: after)

/-- A step of a run after the last save of a file. -/
def AfterSave (env : Environment Url Content) (mode : SearchMode) (docUrl : Url) (content : Content)
    (state : IndexerState Url Content Time) (event : IndexerEvent Url Content Time) : Prop :=
  (Forward state event ∧ NoSave docUrl event) ∧ ExtractSafe env mode docUrl content state

section

variable (tracked : Tracked env mode docUrl file state)
  (well : WellIndexed env mode state)
  (some_chunk : indexableChunks env docUrl file.content ≠ [])
  (after : AfterSave env mode docUrl file.content state event)

include tracked well some_chunk after

theorem Tracked.step : Tracked env mode docUrl file (state.step env mode event) := by
  cases event with
  | tick later => exact ⟨tracked.saved, tracked.progress⟩
  | save other content =>
    refine ⟨?_, tracked.progress⟩
    rw [IndexerState.step, PyDict.get?_set, if_neg fun same => after.1.2 same.symm]
    exact tracked.saved
  | advance => exact (tracked.advance well some_chunk after.2).1

theorem Tracked.covers_step (covers : state.phase.covers env mode state.corpus docUrl file) :
    (state.step env mode event).phase.covers env mode (state.step env mode event).corpus
      docUrl file := by
  cases event with
  | tick | save => exact covers
  | advance => exact (tracked.advance well some_chunk after.2).2 (Or.inr covers)

end

theorem wellIndexed_run (env : Environment Url Content) (mode : SearchMode)
    {events : List (IndexerEvent Url Content Time)}
    (forward : Along (IndexerState.step env mode) Forward IndexerState.initial events) :
    WellIndexed env mode (IndexerState.initial.run env mode events) :=
  forward.foldl_invariant (WellIndexed env mode)
    (fun _ _ well forward => well.step forward) wellIndexed_initial

/-- **No edit is lost.** After a pass that was started after the last save of
a file and has returned, the rows of the file are those of the saved
contents. -/
theorem lastSave_indexed {before between after : List (IndexerEvent Url Content Time)}
    {content : Content}
    (forward : Along (IndexerState.step env mode) Forward IndexerState.initial before)
    (some_chunk : indexableChunks env docUrl content ≠ [])
    (pass : PassAfterSave env mode docUrl content (IndexerState.initial.run env mode before)
      between after)
    (seen : SaveSeen env mode docUrl content (IndexerState.initial.run env mode before)
      between after) :
    ∀ row : ChunkRow Url, row.docUrl = docUrl →
      (row ∈ ((IndexerState.initial.run env mode before).run env mode
          (.save docUrl content :: between ++ .advance :: after)).corpus.chunks.rows ↔
        row ∈ fileRows env mode docUrl content) := by
  have well := wellIndexed_run env mode forward
  generalize IndexerState.initial.run env mode before = saving at *
  have tracked := well.tracked_save content seen.notWriting seen.afterStamp
  obtain ⟨toStart, start, toEnd⟩ := Along.append_iff.mp (pass.lastSave.and seen.extracts)
  -- up to the start of the pass the file stays tracked
  obtain ⟨wellStarted, trackedStarted⟩ := toStart.foldl_invariant
    (fun state => WellIndexed env mode state ∧
      Tracked env mode docUrl { modified := saving.now, content } state)
    (fun _ _ both after => ⟨both.1.step after.1.1, both.2.step both.1 some_chunk after⟩)
    ⟨well.step (show Forward saving (.save docUrl content) from trivial), tracked⟩
  have resting := pass.starts
  have returns := pass.returns
  rw [IndexerState.run, foldl_cons] at resting
  rw [IndexerState.run, foldl_append, foldl_cons, foldl_cons] at returns ⊢
  generalize between.foldl (IndexerState.step env mode)
    (saving.step env mode (.save docUrl content)) = started at *
  have covers : (started.advance env mode).phase.covers env mode
      (started.advance env mode).corpus docUrl { modified := saving.now, content } := by
    refine (trackedStarted.advance wellStarted some_chunk start.2).2 ?_
    cases phase : started.phase with
    | idle => exact Or.inr trivial
    | finished => exact Or.inl rfl
    | _ => rw [phase] at resting; cases resting
  -- from there on the pass covers it
  obtain ⟨-, -, covered⟩ := toEnd.foldl_invariant (fun state => WellIndexed env mode state ∧
      Tracked env mode docUrl { modified := saving.now, content } state ∧
        state.phase.covers env mode state.corpus docUrl { modified := saving.now, content })
    (fun _ _ all after => ⟨all.1.step after.1.1, all.2.1.step all.1 some_chunk after,
      all.2.1.covers_step all.1 some_chunk after all.2.2⟩)
    ⟨wellStarted.step start.1.1, trackedStarted.step wellStarted some_chunk start, covers⟩
  intro row ofFile
  generalize after.foldl (IndexerState.step env mode) (started.step env mode .advance) = final at *
  cases phase : final.phase with
  | finished =>
    rw [phase] at covered
    exact covered row ofFile
  | _ => rw [phase] at returns; cases returns

section Samples

/-- A file is saved and a pass goes on until it has extracted the file. -/
def noteExtracted : List (IndexerEvent Text (List Passage) Nat) :=
  [.tick 1, .save noteUrl [wholePassage "One.".toList], .tick 2,
    .advance, .advance, .advance, .advance, .advance, .tick 3]

def noteIndexed : List (IndexerEvent Text (List Passage) Nat) :=
  [.tick 4, .advance, .advance, .advance, .advance, .tick 5]

def secondSave : List Passage := [wholePassage "Two.".toList]

/-- The file is saved again when it is indexed. -/
theorem secondSave_indexed : (fileRows sampleEnv .embeddings noteUrl secondSave).length = 1 ∧
    ∀ row : ChunkRow Text, row.docUrl = noteUrl →
      (row ∈ ((IndexerState.initial.run sampleEnv .embeddings
          (noteExtracted ++ noteIndexed)).run sampleEnv .embeddings
          (.save noteUrl secondSave :: [.tick 6] ++
            .advance :: List.replicate 8 .advance)).corpus.chunks.rows ↔
        row ∈ fileRows sampleEnv .embeddings noteUrl secondSave) :=
  ⟨by decide +kernel, lastSave_indexed (by decide +kernel) (by decide +kernel)
    ⟨by decide +kernel, by decide +kernel, by decide +kernel⟩
    ⟨by decide +kernel, by decide +kernel, by decide +kernel⟩⟩

/-- The file is saved again between its extraction and its stamp: the next
pass, which starts after that, leaves the first contents in the table. -/
theorem hiddenSave_lost :
    Along (IndexerState.step sampleEnv .embeddings) Forward IndexerState.initial noteExtracted ∧
    indexableChunks sampleEnv noteUrl secondSave ≠ [] ∧
    PassAfterSave sampleEnv .embeddings noteUrl secondSave
      (IndexerState.initial.run sampleEnv .embeddings noteExtracted) noteIndexed
      (List.replicate 4 .advance) ∧
    ¬ ∀ row : ChunkRow Text, row.docUrl = noteUrl →
      (row ∈ ((IndexerState.initial.run sampleEnv .embeddings noteExtracted).run sampleEnv
          .embeddings (.save noteUrl secondSave :: noteIndexed ++
            .advance :: List.replicate 4 .advance)).corpus.chunks.rows ↔
        row ∈ fileRows sampleEnv .embeddings noteUrl secondSave) := by
  refine ⟨by decide +kernel, by decide +kernel,
    ⟨by decide +kernel, by decide +kernel, by decide +kernel⟩, fun same => ?_⟩
  have stored : (⟨⟨noteUrl, 0, 0, 4⟩, 'x' :: "Two.".toList, "Two.".toList⟩ : ChunkRow Text) ∈
      fileRows sampleEnv .embeddings noteUrl secondSave := by decide +kernel
  exact absurd ((same _ rfl).mpr stored) (by decide +kernel)

end Samples

end WriterAgent.Embeddings
